import Mathlib.Data.List.DropRight
import GooseFS.Metadata.Cache

/-!
# Keys of paths

`normalize_path` removes white space at the ends of a path and then trailing slashes, so
white space before a trailing slash is uncovered and stays.  `path_keys_iff` says which
paths that matters for: the keys of a tree of paths are sound exactly if no path of it
ends in white space before its trailing slashes.
-/

namespace GooseFS

open Lib List

def stripSlashes (s : List Char) : List Char := trimEndMatches (· = '/') s

/-- The text of a path without the white space in front, and with a leading slash. -/
def rooted (s : List Char) : List Char :=
  let d := s.dropWhile isWhitespace
  if d.head? = some '/' then d else '/' :: d

def orRoot (s : List Char) : List Char := if s = [] then ['/'] else s

/-- Nothing is uncovered by stripping the slashes. -/
def TidyPath (s : List Char) : Prop :=
  trimEndMatches isWhitespace (stripSlashes (rooted s)) = stripSlashes (rooted s)

def SameUpToSlashes (p q : String) : Prop := stripSlashes p.toList = stripSlashes q.toList

/-- `child` is a name in the directory `dir`. -/
def ChildOf (child dir : String) : Prop :=
  ∃ name : List Char, child.toList = dir.toList ++ '/' :: name ∧ name ≠ [] ∧ '/' ∉ name

def MetadataCache.invalidateWithParent (c : MetadataCache) (path : String) : MetadataCache :=
  (withParent path).foldl invalidate c

/-! ## Trimming -/

section Trim

variable {P : Char → Bool} {s t : List Char} {c : Char}

theorem trimEndMatches_cons (h : trimEndMatches P s ≠ []) :
    trimEndMatches P (c :: s) = c :: trimEndMatches P s := by
  have hne : (s.reverse.dropWhile P).isEmpty = false := by
    rw [isEmpty_eq_false_iff]
    exact fun hnil => h (congrArg reverse hnil)
  rw [trimEndMatches, reverse_cons, dropWhile_append, hne]
  simp [trimEndMatches]

theorem trimEndMatches_head? (h : trimEndMatches P s ≠ []) :
    (trimEndMatches P s).head? = s.head? := by
  obtain ⟨rest, hrest⟩ := rdropWhile_prefix P s
  cases hs : trimEndMatches P s with
  | nil => exact absurd hs h
  | cons c cs => rw [← hrest, show s.rdropWhile P = c :: cs from hs]; rfl

theorem trimEndMatches_ne_nil (h : s.head? = some c) (hc : P c = false) :
    trimEndMatches P s ≠ [] := by
  intro hnil
  have hall := rdropWhile_eq_nil_iff.mp hnil c (mem_of_mem_head? h)
  rw [hc] at hall
  cases hall

theorem isWhitespace_slash : isWhitespace '/' = false := by decide

theorem normalizePath_eq (path : String) : normalizePath path =
    String.ofList (orRoot (stripSlashes (trimEndMatches isWhitespace (rooted path.toList)))) := by
  rw [normalizePath, trim, rooted]
  cases hd : path.toList.dropWhile isWhitespace with
  | nil => rfl
  | cons c d =>
    have hc : isWhitespace c = false := by
      have h := head?_dropWhile_not isWhitespace path.toList
      rw [hd] at h
      simpa using h
    have hne : trimEndMatches isWhitespace (c :: d) ≠ [] := trimEndMatches_ne_nil rfl hc
    have hkey : trimEndMatches isWhitespace (c :: d) ≠ ['/'] ∨ c = '/' := by
      by_contra h
      obtain ⟨htrim, hslash⟩ := not_or.mp h
      have hhead := trimEndMatches_head? hne
      rw [not_not.mp htrim] at hhead
      exact hslash (Option.some.inj hhead).symm
    by_cases hslash : c = '/'
    · subst hslash
      show _ = String.ofList (orRoot (stripSlashes (trimEndMatches isWhitespace ('/' :: d))))
      rw [orRoot, stripSlashes]
      by_cases hnil : trimEndMatches (· = '/') (trimEndMatches isWhitespace ('/' :: d)) = []
      · simp only [hnil, if_true, ite_self]
      · have hone : trimEndMatches isWhitespace ('/' :: d) ≠ ['/'] := fun h => hnil (by rw [h]; rfl)
        simp only [hne, hone, or_self, if_false, hnil, trimEndMatches_head? hnil,
          trimEndMatches_head? hne, head?_cons, if_true]
    · have hstrip : trimEndMatches (· = '/') (trimEndMatches isWhitespace (c :: d)) ≠ [] :=
        trimEndMatches_ne_nil (trimEndMatches_head? hne) (decide_eq_false hslash)
      have hhead : some c ≠ some '/' := fun h => hslash (Option.some.inj h)
      simp only [hne, hkey.resolve_right hslash, or_self, if_false, hstrip,
        trimEndMatches_head? hstrip, trimEndMatches_head? hne, head?_cons, hhead,
        trimEndMatches_cons hne, stripSlashes, trimEndMatches_cons hstrip, orRoot,
        cons_ne_nil]

theorem stripSlashes_trimEnd (h : trimEndMatches isWhitespace (stripSlashes s) = stripSlashes s) :
    stripSlashes (trimEndMatches isWhitespace s) = stripSlashes s := by
  rcases eq_nil_or_concat' s with rfl | ⟨t, c, rfl⟩
  · rfl
  · by_cases hc : c = '/'
    · subst hc
      exact congrArg stripSlashes (rdropWhile_concat_neg isWhitespace t '/' (by decide))
    · have hself : stripSlashes (t ++ [c]) = t ++ [c] :=
        rdropWhile_concat_neg _ t c (by simpa using hc)
      rw [hself] at h
      rw [h]

theorem stripSlashes_slash (s : List Char) : stripSlashes (s ++ ['/']) = stripSlashes s :=
  rdropWhile_concat_pos _ s '/' rfl

theorem stripSlashes_idem (s : List Char) : stripSlashes (stripSlashes s) = stripSlashes s :=
  rdropWhile_idempotent _ s

theorem stripSlashes_ne_root (s : List Char) : stripSlashes s ≠ ['/'] := by
  intro h
  have hidem := stripSlashes_idem s
  rw [h] at hidem
  cases hidem

theorem orRoot_inj {s t : List Char}
    (h : orRoot (stripSlashes s) = orRoot (stripSlashes t)) : stripSlashes s = stripSlashes t := by
  unfold orRoot at h
  split at h <;> split at h
  case isTrue.isTrue hs ht => rw [hs, ht]
  case isTrue.isFalse => exact absurd h.symm (stripSlashes_ne_root t)
  case isFalse.isTrue => exact absurd h (stripSlashes_ne_root s)
  case isFalse.isFalse => exact h

theorem stripSlashes_orRoot (s : List Char) : stripSlashes (orRoot (stripSlashes s)) = stripSlashes s := by
  unfold orRoot
  split
  case isTrue h => rw [h]; rfl
  case isFalse => exact stripSlashes_idem s

theorem rooted_of_head? (h : s.head? = some '/') : rooted s = s := by
  cases s with
  | nil => cases h
  | cons c s =>
    cases h
    rfl

theorem rooted_head? (s : List Char) : (rooted s).head? = some '/' := by
  rw [rooted]
  split
  case isTrue h => exact h
  case isFalse => rfl

theorem orRoot_head? (h : s.head? = some '/') : (orRoot (stripSlashes s)).head? = some '/' := by
  unfold orRoot
  split
  case isTrue => rfl
  case isFalse hne => exact (trimEndMatches_head? hne).trans h

theorem rooted_slash (s : List Char) :
    (rooted (s ++ ['/']) = ['/'] ∧ rooted s = ['/']) ∨ rooted (s ++ ['/']) = rooted s ++ ['/'] := by
  rw [rooted, rooted, dropWhile_append]
  cases hd : s.dropWhile isWhitespace with
  | nil => exact .inl ⟨rfl, rfl⟩
  | cons c d =>
    refine .inr ?_
    by_cases hc : c = '/'
    · simp [hc]
    · simp [hc]

theorem stripSlashes_rooted_slash (s : List Char) :
    stripSlashes (rooted (s ++ ['/'])) = stripSlashes (rooted s) := by
  rcases rooted_slash s with ⟨hslash, hs⟩ | hslash
  · rw [hslash, hs]
  · rw [hslash, stripSlashes_slash]

theorem stripSlashes_rooted_strip (s : List Char) :
    stripSlashes (rooted (stripSlashes s)) = stripSlashes (rooted s) := by
  induction s using reverseRecOn with
  | nil => rfl
  | append_singleton s c ih =>
    by_cases hc : c = '/'
    · subst hc
      rw [stripSlashes_slash, ih, stripSlashes_rooted_slash]
    · rw [show stripSlashes (s ++ [c]) = s ++ [c] from
        rdropWhile_concat_neg _ s c (by simpa using hc)]

theorem SameUpToSlashes.rooted {p q : String} (h : SameUpToSlashes p q) :
    stripSlashes (rooted p.toList) = stripSlashes (GooseFS.rooted q.toList) := by
  rw [← stripSlashes_rooted_strip, h, stripSlashes_rooted_strip]

end Trim

section Keys

variable {p q dir child : String}

theorem normalizePath_of_tidy (h : TidyPath p.toList) :
    normalizePath p = String.ofList (orRoot (stripSlashes (rooted p.toList))) := by
  rw [normalizePath_eq, stripSlashes_trimEnd h]

theorem SameUpToSlashes.tidy (h : SameUpToSlashes p q) (hq : TidyPath q.toList) : TidyPath p.toList := by
  unfold TidyPath
  rw [h.rooted]
  exact hq

theorem SameUpToSlashes.normalizePath (h : SameUpToSlashes p q) (hq : TidyPath q.toList) :
    normalizePath p = normalizePath q := by
  rw [normalizePath_of_tidy (h.tidy hq), normalizePath_of_tidy hq, h.rooted]

theorem normalizePath_orRoot (s : List Char) :
    normalizePath (String.ofList (orRoot (stripSlashes (rooted s)))) =
      String.ofList (orRoot (stripSlashes
        (trimEndMatches isWhitespace (orRoot (stripSlashes (rooted s)))))) := by
  rw [normalizePath_eq, String.toList_ofList, rooted_of_head? (orRoot_head? (rooted_head? s))]

theorem normalizePath_idem (h : TidyPath p.toList) :
    normalizePath (normalizePath p) = normalizePath p := by
  rw [normalizePath_of_tidy h, normalizePath_orRoot, stripSlashes_trimEnd, stripSlashes_orRoot]
  rw [stripSlashes_orRoot]
  exact h

theorem normalizePath_slash (p : String) : normalizePath (String.ofList (p.toList ++ ['/'])) =
    String.ofList (orRoot (stripSlashes (rooted p.toList))) := by
  have hkeep : trimEndMatches isWhitespace (rooted (p.toList ++ ['/'])) =
      rooted (p.toList ++ ['/']) := by
    rcases rooted_slash p.toList with ⟨hslash, _⟩ | hslash
    · rw [hslash]
      decide
    · rw [hslash]
      exact rdropWhile_concat_neg isWhitespace _ '/' (by decide)
  rw [normalizePath_eq, String.toList_ofList, hkeep, stripSlashes_rooted_slash]

theorem tidy_of_idem (h : ∀ u, SameUpToSlashes u p →
    normalizePath (normalizePath u) = normalizePath u) : TidyPath p.toList := by
  have hsame : SameUpToSlashes (String.ofList (p.toList ++ ['/'])) p := by
    rw [SameUpToSlashes, String.toList_ofList, stripSlashes_slash]
  have hidem := h _ hsame
  rw [normalizePath_slash, normalizePath_orRoot, String.ofList_inj] at hidem
  have hkey := orRoot_inj hidem
  unfold TidyPath
  generalize stripSlashes (rooted p.toList) = key at hkey ⊢
  by_cases hnil : key = []
  · rw [hnil]
    rfl
  · rw [orRoot, if_neg hnil] at hkey
    have hle := ( rdropWhile_prefix (· = '/') (trimEndMatches isWhitespace key)).length_le
    rw [show rdropWhile (· = '/') (trimEndMatches isWhitespace key) = key from hkey] at hle
    exact ( rdropWhile_prefix isWhitespace key).eq_of_length_le hle

theorem parentPath_child (h : ChildOf child dir) (htidy : TidyPath child.toList) :
    ∃ parent, parentPath child = some parent ∧
      stripSlashes (rooted parent.toList) = stripSlashes (rooted dir.toList) := by
  obtain ⟨name, hchild, hne, hslash⟩ := h
  obtain ⟨front, hfront, hstrip⟩ : ∃ front, rooted child.toList = front ++ '/' :: name ∧
      (front = [] ∧ rooted dir.toList = ['/'] ∨ front = rooted dir.toList) := by
    rw [hchild, rooted, rooted, dropWhile_append]
    cases hd : dir.toList.dropWhile isWhitespace with
    | nil => exact ⟨[], rfl, .inl ⟨rfl, rfl⟩⟩
    | cons c d =>
      by_cases hc : c = '/'
      · exact ⟨_, by simp [hc], .inr rfl⟩
      · exact ⟨_, by simp [hc], .inr rfl⟩
  obtain ⟨name', c, rfl⟩ := (eq_nil_or_concat' name).resolve_left hne
  have hc : c ≠ '/' := fun h => hslash (h ▸ mem_append_right _ (mem_singleton_self c))
  have hkey : normalizePath child = String.ofList (front ++ '/' :: (name' ++ [c])) := by
    have hself : stripSlashes (front ++ '/' :: (name' ++ [c])) = front ++ '/' :: (name' ++ [c]) := by
      rw [← cons_append, ← append_assoc]
      exact rdropWhile_concat_neg _ _ c (by simpa using hc)
    rw [normalizePath_of_tidy htidy, hfront, hself, orRoot, if_neg (by simp)]
  have hnotroot : String.ofList (front ++ '/' :: (name' ++ [c])) ≠ "/" := by
    intro h
    have hlen := congrArg (fun s : String => s.toList.length) h
    simp at hlen
    omega
  have hlast : (front ++ '/' :: (name' ++ [c])).reverse.dropWhile (· ≠ '/') =
      '/' :: front.reverse := by
    rw [reverse_append, reverse_cons, append_assoc, dropWhile_append_of_pos fun a ha => ?_]
    · rfl
    · exact decide_eq_true fun h => hslash (h ▸ mem_reverse.mp ha)
  refine ⟨_, by rw [parentPath, hkey, if_neg hnotroot, String.toList_ofList, hlast], ?_⟩
  rcases hstrip with ⟨rfl, hroot⟩ | rfl
  · rw [hroot]
    rfl
  · have hne' : (rooted dir.toList).reverse ≠ [] := fun h => by
      have hhead := rooted_head? dir.toList
      rw [reverse_eq_nil_iff.mp h] at hhead
      cases hhead
    rw [if_neg hne', reverse_reverse, String.toList_ofList,
      rooted_of_head? (rooted_head? dir.toList)]

theorem peek_invalidate (c : MetadataCache) {key : String} (path : String)
    (h : c.lru.peek key = none ∨ normalizePath path = key) :
    (c.invalidate path).lru.peek key = none := by
  show (c.lru.pop (normalizePath path)).peek key = none
  rw [LruCache.peek_pop]
  split
  · rfl
  case isFalse hne => exact h.resolve_right fun heq => hne heq.symm

theorem invalidateWithParent_parent {u : String} (h : ChildOf child dir)
    (hchild : TidyPath child.toList) (hdir : TidyPath dir.toList) (hu : SameUpToSlashes u child)
    (hq : SameUpToSlashes q dir) (c : MetadataCache) :
    (c.invalidateWithParent u).lru.peek (normalizePath q) = none := by
  obtain ⟨parent, hparent, hstrip⟩ := parentPath_child h hchild
  have hparent' : parentPath u = some parent := by
    rw [← hparent, parentPath, parentPath, hu.normalizePath hchild]
  have htidy : TidyPath parent.toList := by
    unfold TidyPath
    rw [hstrip]
    exact hdir
  have hkey : normalizePath parent = normalizePath q := by
    rw [hq.normalizePath hdir, normalizePath_of_tidy htidy, normalizePath_of_tidy hdir, hstrip]
  rw [MetadataCache.invalidateWithParent, MetadataCache.withParent, hparent']
  exact peek_invalidate _ u (.inl (peek_invalidate c parent (.inr hkey)))

end Keys

/-! ## Trees of paths -/

/-- With a path all its spellings, and the directory that it is in. -/
structure PathTree (paths : Set String) : Prop where
  spelling : ∀ p ∈ paths, ∀ u, SameUpToSlashes u p → u ∈ paths
  parent : ∀ p ∈ paths, ∀ dir, ChildOf p dir → dir ∈ paths

def IsAbsolute (p : String) : Prop := p.toList.head? = some '/'

structure SoundKeys (paths : Set String) : Prop where
  idempotent : ∀ p ∈ paths, normalizePath (normalizePath p) = normalizePath p
  shared : ∀ p ∈ paths, ∀ q ∈ paths, IsAbsolute p → IsAbsolute q →
    normalizePath p = normalizePath q → SameUpToSlashes p q
  parent : ∀ p ∈ paths, ∀ dir, ChildOf p dir → ∀ u q, SameUpToSlashes u p →
    SameUpToSlashes q dir → ∀ c : MetadataCache,
      (c.invalidateWithParent u).lru.peek (normalizePath q) = none

theorem path_keys_iff {paths : Set String} (htree : PathTree paths) :
    SoundKeys paths ↔ ∀ p ∈ paths, TidyPath p.toList := by
  constructor
  · intro h p hp
    exact tidy_of_idem fun u hu => h.idempotent u (htree.spelling p hp u hu)
  · intro h
    refine ⟨fun p hp => normalizePath_idem (h p hp), fun p hp q hq hpa hqa hkey => ?_,
      fun p hp dir hdir u q hu hq c => ?_⟩
    · rw [normalizePath_of_tidy (h p hp), normalizePath_of_tidy (h q hq), String.ofList_inj] at hkey
      have hstrip := orRoot_inj hkey
      rwa [rooted_of_head? hpa, rooted_of_head? hqa] at hstrip
    · exact invalidateWithParent_parent hdir (h p hp) (h dir (htree.parent p hp dir hdir)) hu hq c

def plainPaths : Set String := { p | ∀ c ∈ p.toList, isWhitespace c = false }

theorem plainPaths_sound : SoundKeys plainPaths := by
  have htree : PathTree plainPaths := by
    refine ⟨fun p hp u hu c hc => ?_, fun p hp dir ⟨name, hchild, _⟩ c hc => ?_⟩
    · have hsplit : u.toList.rdropWhile (· = '/') ++ u.toList.rtakeWhile (· = '/') = u.toList :=
        rdropWhile_append_rtakeWhile
      rw [← hsplit] at hc
      rcases mem_append.mp hc with hc | hc
      · have hcp : c ∈ stripSlashes p.toList := by
          rw [← show stripSlashes u.toList = stripSlashes p.toList from hu]
          exact hc
        exact hp c (( rdropWhile_prefix (· = '/') p.toList).subset hcp)
      · have hslash : c = '/' := by simpa using mem_rtakeWhile_imp hc
        exact hslash ▸ isWhitespace_slash
    · exact hp c (hchild ▸ mem_append_left _ hc)
  refine (path_keys_iff htree).mpr fun p hp => ?_
  refine rdropWhile_eq_self_iff.mpr fun hne => ?_
  have hmem : (stripSlashes (rooted p.toList)).getLast hne ∈ rooted p.toList :=
    ( rdropWhile_prefix (· = '/') _).subset (getLast_mem hne)
  rw [Bool.not_eq_true]
  generalize (stripSlashes (rooted p.toList)).getLast hne = c at hmem ⊢
  rw [rooted] at hmem
  split at hmem
  · exact hp _ ((dropWhile_sublist _).subset hmem)
  · rcases mem_cons.mp hmem with hslash | hmem
    · exact hslash ▸ isWhitespace_slash
    · exact hp _ ((dropWhile_sublist _).subset hmem)

/-- A cache with the listing of a directory whose name ends in a blank. -/
def blankCache : MetadataCache :=
  MetadataCache.insertListing ⟨.empty 4, 1, Nat.one_pos⟩ 0 "/d /" ⟨[], 0⟩

/-- The key of such a directory is not a key again, it is the key of another path without
the slash, and the listing survives the invalidation of a child. -/
theorem path_keys_blank :
    normalizePath (normalizePath "/d /") ≠ normalizePath "/d /" ∧
      normalizePath "/d " = normalizePath "/d" ∧ ¬SameUpToSlashes "/d " "/d" ∧
      ((blankCache.invalidateWithParent "/d /f").lru.peek (normalizePath "/d /")).isSome = true := by
  unfold SameUpToSlashes
  decide +kernel

end GooseFS
