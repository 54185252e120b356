import Mathlib.Data.List.AList
import Mathlib.Data.List.DropRight
import GooseFS.Metadata.Cache

/-!
# Properties files

`PropertiesMap::parse` reads a `goosefs-site.properties` file: one entry per line, with
comments and blank lines between.  The separator is the first `=` of a line, and the first
`:` only of a line without one.  `parse_render_iff` says which files are read as they were
written.
-/

namespace GooseFS

/-- `str::lines`, with the characters of the line so far.  A carriage return belongs to the
line feed after it. -/
def linesFrom (line : List Char) : List Char → List (List Char)
  | [] => if line = [] then [] else [line]
  | c :: rest =>
    if c = '\n' then
      (if line.getLast? = some '\r' then line.dropLast else line) :: linesFrom [] rest
    else linesFrom (line ++ [c]) rest

abbrev PropertiesMap := AList fun _ : List Char => List Char

namespace PropertiesMap

def parseLine (line : List Char) : Option (List Char × List Char) :=
  let trimmed := trim line
  if trimmed = [] ∨ trimmed.head? = some '#' ∨ trimmed.head? = some '!' then none
  else
    match (trimmed.findIdx? (· = '=')).or (trimmed.findIdx? (· = ':')) with
    | none => none
    | some pos =>
      let key := trim (trimmed.take pos)
      let value := trim (trimmed.drop (pos + 1))
      if key = [] then none else some (key, value)

def insertEntry (props : PropertiesMap) (entry : List Char × List Char) : PropertiesMap :=
  props.insert entry.1 entry.2

def parse (content : List Char) : PropertiesMap :=
  ((linesFrom [] content).filterMap parseLine).foldl insertEntry ∅

end PropertiesMap

open PropertiesMap List Option

/-- An entry as it is written, with the separator chosen for it. -/
structure PropertyEntry where
  key : List Char
  value : List Char
  colon : Bool
  deriving DecidableEq

inductive PropertyLine where
  | entry (e : PropertyEntry)
  | other (text : List Char)
  deriving DecidableEq

def NoOuterSpace (s : List Char) : Prop :=
  (∀ c, s.head? = some c → isWhitespace c = false) ∧
    ∀ c, s.getLast? = some c → isWhitespace c = false

structure PropertyEntry.WellFormed (e : PropertyEntry) : Prop where
  key_ne : e.key ≠ []
  key_plain : ∀ c ∈ e.key, c ≠ '=' ∧ c ≠ ':' ∧ c ≠ '\n'
  key_outer : NoOuterSpace e.key
  key_head : e.key.head? ≠ some '#' ∧ e.key.head? ≠ some '!'
  value_line : '\n' ∉ e.value
  value_outer : NoOuterSpace e.value

namespace PropertyLine

def text : PropertyLine → List Char
  | entry e => e.key ++ (if e.colon then ':' else '=') :: e.value
  | other t => t

def entry? : PropertyLine → Option PropertyEntry
  | entry e => some e
  | other _ => none

def WellFormed : PropertyLine → Prop
  | entry e => e.WellFormed
  | other t => '\n' ∉ t ∧ (trim t = [] ∨ (trim t).head? = some '#' ∨ (trim t).head? = some '!')

end PropertyLine

structure PropertiesFile where
  lines : List PropertyLine
  wellFormed : ∀ l ∈ lines, l.WellFormed
  distinct : ((lines.filterMap PropertyLine.entry?).map PropertyEntry.key).Nodup

namespace PropertiesFile

def entries (f : PropertiesFile) : List PropertyEntry := f.lines.filterMap PropertyLine.entry?

def renderLines : List (List Char) → List Char
  | [] => []
  | [l] => l
  | l :: rest => l ++ '\n' :: renderLines rest

def render (f : PropertiesFile) : List Char := renderLines (f.lines.map PropertyLine.text)

def get (f : PropertiesFile) (key : List Char) : Option (List Char) :=
  (f.entries.find? (·.key = key)).map PropertyEntry.value

end PropertiesFile

/-! ## One line -/

section Line

variable {s t : List Char} {c : Char}

theorem trim_of_noOuterSpace (h : NoOuterSpace s) : trim s = s := by
  have hfront : s.dropWhile isWhitespace = s := by
    cases s with
    | nil => rfl
    | cons c s => exact dropWhile_cons_of_neg (by simp [h.1 c rfl])
  rw [trim, hfront]
  exact rdropWhile_eq_self_iff.mpr fun hne => by
    simp [h.2 _ (getLast?_eq_getLast_of_ne_nil hne)]

theorem mem_trim (hc : c ∈ s) (hspace : isWhitespace c = false) : c ∈ trim s := by
  have hfront : c ∈ s.dropWhile isWhitespace := by
    rw [← takeWhile_append_dropWhile (p := isWhitespace) (l := s)] at hc
    refine (mem_append.mp hc).resolve_left fun h => ?_
    rw [mem_takeWhile_imp h] at hspace
    cases hspace
  have hsplit : (s.dropWhile isWhitespace).rdropWhile isWhitespace ++
      (s.dropWhile isWhitespace).rtakeWhile isWhitespace = s.dropWhile isWhitespace :=
    rdropWhile_append_rtakeWhile
  rw [← hsplit] at hfront
  refine (mem_append.mp hfront).resolve_right fun h => ?_
  rw [mem_rtakeWhile_imp h] at hspace
  cases hspace

theorem trim_concat (h : isWhitespace c = true) : trim (s ++ [c]) = trim s := by
  rw [trim, trim, dropWhile_append]
  split
  case isTrue hnil =>
    rw [isEmpty_iff.mp hnil, dropWhile_cons_of_pos h]
    rfl
  case isFalse => exact rdropWhile_concat_pos isWhitespace _ c h

theorem findIdx?_sep (hs : c ∉ s) : (s ++ c :: t).findIdx? (· = c) = some s.length := by
  have hnone : s.findIdx? (· = c) = none := by
    rw [findIdx?_eq_none_iff]
    intro a ha
    exact decide_eq_false fun h => hs (h ▸ ha)
  rw [findIdx?_append, hnone, findIdx?_cons]
  simp

theorem parseLine_at (htrim : trim (s ++ c :: t) = s ++ c :: t)
    (hhead : (s ++ c :: t).head? ≠ some '#' ∧ (s ++ c :: t).head? ≠ some '!')
    (hpos : ((s ++ c :: t).findIdx? (· = '=')).or ((s ++ c :: t).findIdx? (· = ':')) =
      some s.length) (hkey : trim s ≠ []) : parseLine (s ++ c :: t) = some (trim s, trim t) := by
  have hentry : ¬(s ++ c :: t = [] ∨ (s ++ c :: t).head? = some '#' ∨
      (s ++ c :: t).head? = some '!') := by
    rintro (h | h | h)
    · simp at h
    · exact hhead.1 h
    · exact hhead.2 h
  have hdrop : (s ++ c :: t).drop (s.length + 1) = t := by
    rw [append_cons, drop_left' (by simp)]
  rw [parseLine, htrim, if_neg hentry, hpos]
  simp only [take_left, hdrop, if_neg hkey]

end Line

namespace PropertyEntry

variable {e : PropertyEntry}

def sep (e : PropertyEntry) : Char := if e.colon then ':' else '='

theorem sep_space (e : PropertyEntry) : isWhitespace e.sep = false := by
  rw [sep]
  cases e.colon <;> decide

namespace WellFormed

variable (h : e.WellFormed)
include h

theorem line_head? : (e.key ++ e.sep :: e.value).head? = e.key.head? := by
  rw [head?_append, or_of_isSome]
  exact isSome_head?.mpr h.key_ne

theorem trim_line : trim (e.key ++ e.sep :: e.value) = e.key ++ e.sep :: e.value := by
  refine trim_of_noOuterSpace ⟨fun c hc => h.key_outer.1 c (h.line_head? ▸ hc), fun c hc => ?_⟩
  rw [getLast?_append_of_ne_nil _ (cons_ne_nil _ _), getLast?_cons] at hc
  cases hlast : e.value.getLast? with
  | none =>
    rw [hlast] at hc
    exact some.inj hc ▸ e.sep_space
  | some d =>
    rw [hlast] at hc
    exact some.inj hc ▸ h.value_outer.2 d hlast

theorem not_mem_key {c : Char} (hc : c = '=' ∨ c = ':') : c ∉ e.key := by
  intro hmem
  obtain ⟨heq, hcolon, _⟩ := h.key_plain c hmem
  exact hc.elim heq hcolon

theorem parse_right (hright : e.colon = true → '=' ∉ e.value) :
    parseLine (e.key ++ e.sep :: e.value) = some (e.key, e.value) := by
  have hkey := trim_of_noOuterSpace h.key_outer
  have hpos : ((e.key ++ e.sep :: e.value).findIdx? (· = '=')).or
      ((e.key ++ e.sep :: e.value).findIdx? (· = ':')) = some e.key.length := by
    rw [sep]
    cases hcolon : e.colon with
    | false =>
      rw [if_neg Bool.false_ne_true, findIdx?_sep (h.not_mem_key (.inl rfl))]
      rfl
    | true =>
      have hnone : (e.key ++ ':' :: e.value).findIdx? (· = '=') = none := by
        rw [findIdx?_eq_none_iff]
        intro c hc
        refine decide_eq_false fun heq => ?_
        subst heq
        rcases mem_append.mp hc with hc | hc
        · exact h.not_mem_key (.inl rfl) hc
        · exact hright hcolon ((mem_cons.mp hc).resolve_left (by decide))
      rw [if_pos rfl, hnone, findIdx?_sep (h.not_mem_key (.inr rfl))]
      rfl
  rw [parseLine_at h.trim_line (h.line_head?.symm ▸ h.key_head) hpos (hkey.symm ▸ h.key_ne), hkey,
    trim_of_noOuterSpace h.value_outer]

theorem parse_wrong (hcolon : e.colon = true) (heq : '=' ∈ e.value) :
    ∃ key value, parseLine (e.key ++ e.sep :: e.value) = some (key, value) ∧ ':' ∈ key := by
  obtain ⟨a, b, hvalue, ha⟩ := eq_append_cons_of_mem heq
  have hsep : e.sep = ':' := if_pos hcolon
  have hline : e.key ++ e.sep :: e.value = (e.key ++ ':' :: a) ++ '=' :: b := by
    rw [hsep, hvalue, append_assoc, cons_append]
  have hmem : ':' ∈ trim (e.key ++ ':' :: a) :=
    mem_trim (mem_append_right _ (mem_cons_self ..)) (by decide)
  have hnot : '=' ∉ e.key ++ ':' :: a := by
    intro hc
    rcases mem_append.mp hc with hc | hc
    · exact h.not_mem_key (.inl rfl) hc
    · exact ha ((mem_cons.mp hc).resolve_left (by decide))
  refine ⟨_, trim b, ?_, hmem⟩
  rw [hline]
  refine parseLine_at (hline ▸ h.trim_line) (hline ▸ h.line_head?.symm ▸ h.key_head) ?_
    (ne_nil_of_mem hmem)
  rw [findIdx?_sep hnot]
  rfl

end WellFormed

end PropertyEntry

theorem parseLine_cr (line : List Char) :
    parseLine (if line.getLast? = some '\r' then line.dropLast else line) = parseLine line := by
  split
  case isTrue h =>
    have hline := dropLast_append_getLast? '\r' h
    have htrim : trim line.dropLast = trim line := by
      rw [← hline, dropLast_concat, trim_concat (by decide)]
    rw [parseLine, parseLine, htrim]
  case isFalse => rfl

theorem linesFrom_line {l : List Char} (rest : List Char) : ∀ {line : List Char}, '\n' ∉ l →
    linesFrom line (l ++ '\n' :: rest) = linesFrom (line ++ l) ('\n' :: rest) := by
  induction l with
  | nil => intro line _; rw [nil_append, append_nil]
  | cons c l ih =>
    intro line hl
    obtain ⟨hc, hl⟩ := not_or.mp (mem_cons.not.mp hl)
    rw [cons_append, linesFrom, if_neg fun h => hc h.symm, ih hl, append_assoc]
    rfl

theorem linesFrom_last {l : List Char} : ∀ {line : List Char}, '\n' ∉ l →
    linesFrom line l = if line ++ l = [] then [] else [line ++ l] := by
  induction l with
  | nil => intro line _; rw [append_nil]; rfl
  | cons c l ih =>
    intro line hl
    obtain ⟨hc, hl⟩ := not_or.mp (mem_cons.not.mp hl)
    rw [linesFrom, if_neg fun h => hc h.symm, ih hl, append_assoc]
    rfl

theorem parse_renderLines : ∀ {ls : List (List Char)}, (∀ l ∈ ls, '\n' ∉ l) →
    (linesFrom [] (PropertiesFile.renderLines ls)).filterMap parseLine = ls.filterMap parseLine
  | [], _ => rfl
  | [l], h => by
    rw [PropertiesFile.renderLines, linesFrom_last (h l (mem_cons_self ..)), nil_append]
    split
    case isTrue hnil => rw [hnil]; rfl
    case isFalse => rfl
  | l :: l' :: rest, h => by
    have ih := parse_renderLines fun x hx => h x (mem_cons_of_mem l hx)
    rw [PropertiesFile.renderLines, linesFrom_line _ (h l (mem_cons_self ..)),
      nil_append, linesFrom, if_pos rfl, filterMap_cons, parseLine_cr, ih,
      filterMap_cons (l := l' :: rest)]
    simp

/-! ## Maps -/

section Insert

variable {es : List (List Char × List Char)} {key value : List Char}

theorem lookup_foldl_of_notMem : ∀ {m : PropertiesMap}, key ∉ es.map Prod.fst →
    (es.foldl insertEntry m).lookup key = m.lookup key := by
  induction es with
  | nil => intro m _; rfl
  | cons e es ih =>
    intro m h
    rw [map_cons, mem_cons, not_or] at h
    rw [foldl_cons, ih h.2]
    exact AList.lookup_insert_ne h.1

theorem lookup_foldl_of_mem : ∀ {m : PropertiesMap}, (es.map Prod.fst).Nodup → (key, value) ∈ es →
    (es.foldl insertEntry m).lookup key = some value := by
  induction es with
  | nil => intro m _ h; cases h
  | cons e es ih =>
    intro m hnodup h
    rw [map_cons, nodup_cons] at hnodup
    rw [foldl_cons]
    rcases mem_cons.mp h with rfl | h
    · rw [lookup_foldl_of_notMem hnodup.1]
      exact AList.lookup_insert _
    · exact ih hnodup.2 h

theorem lookup_foldl_ne_none : ∀ {m : PropertiesMap}, key ∈ es.map Prod.fst →
    (es.foldl insertEntry m).lookup key ≠ none := by
  induction es with
  | nil => intro m h; cases h
  | cons e es ih =>
    intro m h
    rw [foldl_cons]
    by_cases hmem : key ∈ es.map Prod.fst
    · exact ih hmem
    · rw [map_cons, mem_cons] at h
      rw [lookup_foldl_of_notMem hmem, h.resolve_right hmem, insertEntry, AList.lookup_insert]
      exact some_ne_none _

end Insert

namespace PropertiesFile

variable {f : PropertiesFile}

theorem parse_render (f : PropertiesFile) : parse f.render =
    ((f.lines.map PropertyLine.text).filterMap parseLine).foldl insertEntry ∅ := by
  rw [parse, render, parse_renderLines]
  intro l hl
  obtain ⟨line, hline, rfl⟩ := mem_map.mp hl
  have hw := f.wellFormed line hline
  cases line with
  | other t => exact hw.1
  | entry e =>
    intro hmem
    rcases mem_append.mp hmem with hmem | hmem
    · exact (hw.key_plain _ hmem).2.2 rfl
    · rcases mem_cons.mp hmem with hsep | hmem
      · split at hsep <;> cases hsep
      · exact hw.value_line hmem

theorem parseLine_text {line : PropertyLine} (hw : line.WellFormed)
    (h : ∀ e, line.entry? = some e → e.colon = true → '=' ∉ e.value) :
    parseLine line.text = line.entry?.map fun e => (e.key, e.value) := by
  cases line with
  | entry e => exact hw.parse_right (h e rfl)
  | other t => exact if_pos hw.2

theorem mem_entries {e : PropertyEntry} : e ∈ f.entries ↔ .entry e ∈ f.lines := by
  constructor
  · intro h
    obtain ⟨line, hline, he⟩ := mem_filterMap.mp h
    cases line with
    | entry e' => cases he; exact hline
    | other t => cases he
  · exact fun h => mem_filterMap.mpr ⟨_, h, rfl⟩

theorem parsed_entries (h : ∀ e ∈ f.entries, e.colon = true → '=' ∉ e.value) :
    (f.lines.map PropertyLine.text).filterMap parseLine =
      f.entries.map fun e => (e.key, e.value) := by
  rw [filterMap_map, entries, map_filterMap]
  refine filterMap_congr fun line hline => ?_
  refine parseLine_text (f.wellFormed line hline) fun e he => h e ?_
  exact mem_filterMap.mpr ⟨line, hline, he⟩

/-- A file is read as it was written exactly if no value behind a colon has an `=`. -/
theorem parse_render_iff (f : PropertiesFile) : (∀ key, (parse f.render).lookup key = f.get key) ↔
      ∀ e ∈ f.entries, e.colon = true → '=' ∉ e.value := by
  rw [parse_render]
  constructor
  · intro hread e he hcolon heq
    have hline := mem_entries.mp he
    obtain ⟨key, value, hparse, hmem⟩ :=
      (f.wellFormed _ hline : e.WellFormed).parse_wrong hcolon heq
    have hin : key ∈ ((f.lines.map PropertyLine.text).filterMap parseLine).map Prod.fst :=
      List.mem_map.mpr ⟨(key, value), List.mem_filterMap.mpr
        ⟨_, List.mem_map_of_mem hline, hparse⟩, rfl⟩
    refine lookup_foldl_ne_none hin ((hread key).trans ?_)
    rw [get, Option.map_eq_none_iff, List.find?_eq_none]
    intro e' he' hkey
    -- no key that was written has a colon
    have hw : e'.WellFormed := f.wellFormed _ (mem_entries.mp he')
    rw [← of_decide_eq_true hkey] at hmem
    exact hw.not_mem_key (Or.inr rfl) hmem
  · intro h key
    rw [parsed_entries h, get]
    have hnodup : ((f.entries.map fun e => (e.key, e.value)).map Prod.fst).Nodup := by
      rw [List.map_map]
      exact f.distinct
    cases hfind : f.entries.find? (·.key = key) with
    | some e =>
      have hkey : e.key = key := by simpa using List.find?_some hfind
      exact lookup_foldl_of_mem hnodup
        (hkey ▸ List.mem_map.mpr ⟨e, List.mem_of_find?_eq_some hfind, rfl⟩)
    | none =>
      refine lookup_foldl_of_notMem fun hmem => ?_
      rw [List.map_map] at hmem
      obtain ⟨e, he, hkey⟩ := List.mem_map.mp hmem
      exact List.find?_eq_none.mp hfind e he (decide_eq_true hkey)

end PropertiesFile

/-- The value of `a` is not read, and a key that nobody wrote is. -/
theorem parse_colon_equals : (parse "a:b=c".toList).lookup "a".toList = none ∧
      (parse "a:b=c".toList).lookup "a:b".toList = some "c".toList := by
  decide +kernel

end GooseFS
