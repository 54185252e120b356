import GooseFS.Error
import GooseFS.Lib.Worklist

/-!
# Recursive listings

`list_status_with_options` descends into directories on the client, because the master
lists one level only.  Directories are told apart by `list_status_path_key`, which removes
one trailing slash.  An entry whose key is that of the listed directory is taken for the
directory itself and not entered; any other directory that can be reached is listed once
(`listStatus_complete`).
-/

namespace GooseFS

open Lib Relation

structure ListedInfo where
  path : Option String
  folder : Option Bool
  deriving DecidableEq, Repr

def listStatusPathKey (path : String) : String :=
  if 1 < path.length ∧ path.toList.getLast? = some '/' then String.ofList path.toList.dropLast
  else path

def listStatusBfsChildDir (cur : String) (childPath : Option String) (isFolder : Bool) :
    Option String :=
  if isFolder = false then none
  else
    match childPath.filter (· ≠ "") with
    | none => none
    | some child => if listStatusPathKey child = listStatusPathKey cur then none else some child

/-- The key that an entry of the listing of `cur` adds. -/
def listStatusChild (cur : String) (fi : ListedInfo) : Option String :=
  (listStatusBfsChildDir cur fi.path (fi.folder.getD false)).map listStatusPathKey

/-- `list_status_with_options` with `recursive`; `list` is the one-level call. -/
def listStatusRecursive (list : String → Except Error (List ListedInfo)) (fuel : Nat)
    (path : String) : Option (Except Error (Worklist String ListedInfo)) :=
  Worklist.run list listStatusChild fuel (Worklist.start (listStatusPathKey path))

def itemsOf (list : String → Except Error (List ListedInfo)) (key : String) : List ListedInfo :=
  match list key with
  | .ok items => items
  | .error _ => []

/-- `key` is the key of a folder that the listing of `cur` names, other than `cur` itself. -/
def Enters (list : String → Except Error (List ListedInfo)) (cur key : String) : Prop :=
  ∃ fi ∈ itemsOf list cur, fi.folder = some true ∧
    ∃ p, fi.path = some p ∧ p ≠ "" ∧ listStatusPathKey p = key ∧ key ≠ listStatusPathKey cur

def Reachable (list : String → Except Error (List ListedInfo)) (start key : String) : Prop :=
  ReflTransGen (Enters list) start key

theorem listStatusChild_eq_some {cur key : String} {fi : ListedInfo} :
    listStatusChild cur fi = some key ↔ fi.folder = some true ∧
      ∃ p, fi.path = some p ∧ p ≠ "" ∧ listStatusPathKey p = key ∧
        key ≠ listStatusPathKey cur := by
  obtain ⟨path, folder⟩ := fi
  rw [listStatusChild, listStatusBfsChildDir]
  cases folder with
  | none => simp
  | some b =>
    cases b with
    | false => simp
    | true =>
      cases path with
      | none => simp
      | some p =>
        by_cases hp : p = ""
        · simp [hp, Option.filter_some]
        · by_cases hkey : listStatusPathKey p = listStatusPathKey cur
          · simp only [Option.filter_some, hp, hkey, ne_eq, not_false_eq_true, decide_true, if_true]
            simp [hp, hkey, eq_comm]
          · simp only [Option.filter_some, hp, hkey, ne_eq, not_false_eq_true, decide_true, if_true]
            have hne : listStatusPathKey p = key → key ≠ listStatusPathKey cur := by
              rintro rfl
              exact hkey
            simpa [hp] using hne

variable {list : String → Except Error (List ListedInfo)} {path : String}

theorem leads_eq_enters : Worklist.Leads listStatusChild (itemsOf list) = Enters list := by
  funext cur key
  simp only [Worklist.Leads, Enters, listStatusChild_eq_some]

/-- If the directories that can be reached are finitely many and every call for one of them
succeeds, then the descent ends, calls for each of them exactly once, and returns the
listings one after the other in the order of the calls. -/
theorem listStatus_complete
    (hfinite : {key | Reachable list (listStatusPathKey path) key}.Finite)
    (hlist : ∀ key, Reachable list (listStatusPathKey path) key → ∃ items, list key = .ok items) :
    ∃ n, ∀ fuel, n ≤ fuel → ∃ w, listStatusRecursive list fuel path = some (.ok w) ∧
      w.calls.Nodup ∧ (∀ key, key ∈ w.calls ↔ Reachable list (listStatusPathKey path) key) ∧
      w.out = w.calls.flatMap (itemsOf list) := by
  unfold Reachable at hfinite hlist ⊢
  rw [← leads_eq_enters] at hfinite hlist ⊢
  refine Worklist.run_complete hfinite fun key hkey => ?_
  obtain ⟨items, hitems⟩ := hlist key hkey
  rw [itemsOf, hitems]

def folderAt (path : String) : ListedInfo := ⟨some path, some true⟩

/-- Three directories that list each other, and themselves with a slash. -/
def cyclicNamespace (key : String) : Except Error (List ListedInfo) :=
  if key = "/" then .ok [folderAt "/", folderAt "/a", ⟨some "/f", some false⟩]
  else if key = "/a" then .ok [folderAt "/a/", folderAt "/b/", folderAt "/"]
  else .ok [folderAt "/b/", folderAt "/a"]

theorem listStatus_complete_cyclic : ∃ n, ∀ fuel, n ≤ fuel → ∃ w,
    listStatusRecursive cyclicNamespace fuel "/" = some (.ok w) ∧ w.calls.Nodup ∧
      w.calls = ["/", "/a", "/b"] := by
  have hstep : ∀ cur ∈ ["/", "/a", "/b"], ∀ fi ∈ itemsOf cyclicNamespace cur,
      fi.folder = some true → ∀ p ∈ fi.path, listStatusPathKey p ∈ ["/", "/a", "/b"] := by
    decide +kernel
  have hclosed : ∀ key, Reachable cyclicNamespace "/" key → key ∈ ["/", "/a", "/b"] := by
    intro key hkey
    induction hkey with
    | refl => exact List.mem_cons_self ..
    | tail _ henter ih =>
      obtain ⟨fi, hfi, hfolder, p, hp, _, rfl, _⟩ := henter
      exact hstep _ ih fi hfi hfolder p hp
  have hfinite : {key | Reachable cyclicNamespace (listStatusPathKey "/") key}.Finite :=
    (List.finite_toSet ["/", "/a", "/b"]).subset hclosed
  obtain ⟨n, hn⟩ := listStatus_complete hfinite fun key _ => by
    unfold cyclicNamespace
    split
    · exact ⟨_, rfl⟩
    · split <;> exact ⟨_, rfl⟩
  have hshort : (listStatusRecursive cyclicNamespace 4 "/").map (Except.map Worklist.calls) =
      some (.ok ["/", "/a", "/b"]) := by decide +kernel
  refine ⟨max n 4, fun fuel hfuel => ?_⟩
  obtain ⟨w, hrun, hnodup, _⟩ := hn fuel (Nat.le_trans (Nat.le_max_left n 4) hfuel)
  obtain ⟨r, hr, hcalls⟩ := Option.map_eq_some_iff.mp hshort
  rw [listStatusRecursive, Worklist.run_mono hr (Nat.le_trans (Nat.le_max_right n 4) hfuel)] at hrun
  cases hrun
  exact ⟨w, Worklist.run_mono hr (Nat.le_trans (Nat.le_max_right n 4) hfuel), hnodup,
    Except.ok.inj hcalls⟩

/-- A directory that was asked for with two slashes and lists the path without them. -/
def slashNamespace (key : String) : Except Error (List ListedInfo) :=
  if key = "/a/" then .ok [folderAt "/a"] else .ok [⟨some "/a/f", some false⟩]

/-- The folder in the listing is taken for the listed directory, and its key is never listed. -/
theorem listStatus_echo : ∃ w, listStatusRecursive slashNamespace 9 "/a//" = some (.ok w) ∧
    w.calls = ["/a/"] ∧ w.out = [folderAt "/a"] ∧ listStatusPathKey "/a" ∉ w.calls :=
  ⟨⟨[], ["/a/"], [folderAt "/a"], ["/a/"]⟩, by decide +kernel, rfl, rfl, by decide +kernel⟩

end GooseFS
