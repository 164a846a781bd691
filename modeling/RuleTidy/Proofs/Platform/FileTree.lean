import RuleTidy.Platform.FileTree
import RuleTidy.Proofs.Chain

/-! Trees of files in which contents change. Where a path leads depends on the shape of a tree alone,
and writing to one file keeps the shape and all other contents. -/

namespace RuleTidy.Platform

def Entry.blank : Entry → Entry
  | .file _ executable => .file [] executable
  | .directory => .directory

namespace FileTree

variable {tree after : FileTree} {route : Route} {entry : Entry} {path other : String}

/-! Entries. -/

theorem lookup_cons (key name : Route) (entry : Entry) (rest : List (Route × Entry)) :
    ((name, entry) :: rest).lookup key = if key = name then some entry else rest.lookup key := by
  rw [List.lookup_cons]
  by_cases hkey : key = name
  · simp [hkey]
  · have hfalse : (key == name) = false := beq_eq_false_iff_ne.2 hkey
    simp [hkey, hfalse]

theorem lookup_insertEntry (route : Route) (entry : Entry) (entries : List (Route × Entry))
    (key : Route) :
    (insertEntry route entry entries).lookup key =
      if key = route then some entry else entries.lookup key := by
  induction entries with
  | nil => exact lookup_cons key route entry []
  | cons first rest ih =>
      obtain ⟨name, old⟩ := first
      unfold insertEntry
      by_cases hname : route = name
      · subst hname
        rw [if_pos rfl, lookup_cons, lookup_cons]
        split <;> rfl
      · rw [if_neg hname]
        split
        · rw [lookup_cons]
        · rw [lookup_cons, lookup_cons, ih]
          by_cases hkey : key = name
          · have hother : key ≠ route := fun heq => hname (heq ▸ hkey)
            rw [if_pos hkey, if_neg hother, if_pos hkey]
          · rw [if_neg hkey, if_neg hkey]

theorem get?_set (hroute : ¬route.isPrefixOf tree.workingDirectory) (key : Route) :
    (tree.set route entry).get? key = if key = route then some entry else tree.get? key := by
  unfold get? set
  dsimp only
  rw [lookup_insertEntry]
  by_cases hkey : key = route
  · subst hkey
    rw [if_neg hroute, if_pos rfl, if_pos rfl]
  · rw [if_neg hkey, if_neg hkey]

/-! Trees of one shape. -/

structure SameShape (tree after : FileTree) : Prop where
  workingDirectory : after.workingDirectory = tree.workingDirectory
  entries : ∀ route, (after.get? route).map Entry.blank = (tree.get? route).map Entry.blank

namespace SameShape

theorem refl (tree : FileTree) : SameShape tree tree := ⟨rfl, fun _ => rfl⟩

theorem trans {last : FileTree} (h : SameShape tree after) (hlast : SameShape after last) :
    SameShape tree last where
  workingDirectory := hlast.workingDirectory.trans h.workingDirectory
  entries route := (hlast.entries route).trans (h.entries route)

theorem follow_eq (h : SameShape tree after) : after.follow = tree.follow := by
  funext route piece
  have hroute := h.entries route
  unfold follow
  cases htree : tree.get? route with
  | none =>
      rw [htree, Option.map_none, Option.map_eq_none_iff] at hroute
      rw [hroute]
  | some entry =>
      rw [htree, Option.map_some, Option.map_eq_some_iff] at hroute
      obtain ⟨entry', hafter, hblank⟩ := hroute
      rw [hafter]
      cases entry <;> cases entry' <;> first
        | rfl
        | simp [Entry.blank] at hblank

theorem resolve_eq (h : SameShape tree after) (path : String) :
    (after.resolve path).map (Prod.map id Entry.blank) =
      (tree.resolve path).map (Prod.map id Entry.blank) := by
  unfold resolve
  have hstart : after.startOf path = tree.startOf path := by rw [startOf, h.workingDirectory, startOf]
  rw [h.follow_eq, hstart]
  split
  · rfl
  split
  · rfl
  split
  · rfl
  cases (components path).foldlM tree.follow (tree.startOf path) with
  | error fault => rfl
  | ok route =>
      have hroute := h.entries route
      cases htree : tree.get? route with
      | none =>
          rw [htree, Option.map_none, Option.map_eq_none_iff] at hroute
          simp only [bind, Except.bind, htree, hroute]
      | some entry =>
          rw [htree, Option.map_some, Option.map_eq_some_iff] at hroute
          obtain ⟨entry', hafter, hblank⟩ := hroute
          simp only [bind, Except.bind, htree, hafter, pure, Except.pure, Except.map, Prod.map,
            hblank]

theorem resolve_cases (h : SameShape tree after) (path : String) :
    (∃ fault, tree.resolve path = .error fault ∧ after.resolve path = .error fault) ∨
      ∃ route entry entry', tree.resolve path = .ok (route, entry) ∧
        after.resolve path = .ok (route, entry') ∧ entry'.blank = entry.blank := by
  have hresolve := h.resolve_eq path
  cases htree : tree.resolve path with
  | error fault =>
      rw [htree] at hresolve
      exact .inl ⟨fault, rfl, map_eq_error.1 hresolve⟩
  | ok found =>
      obtain ⟨route, entry⟩ := found
      rw [htree] at hresolve
      obtain ⟨⟨route', entry'⟩, hafter, heq⟩ := map_eq_ok.1 hresolve
      obtain ⟨rfl, hblank⟩ := Prod.mk.inj heq
      exact .inr ⟨route', entry, entry', rfl, hafter, hblank⟩

theorem isDirectory_eq (h : SameShape tree after) (path : String) :
    after.isDirectory path = tree.isDirectory path := by
  unfold isDirectory
  rcases h.resolve_cases path with
    ⟨fault, htree, hafter⟩ | ⟨route, entry, entry', htree, hafter, hblank⟩
  · rw [htree, hafter]
  · rw [htree, hafter]
    cases entry <;> cases entry' <;> first
      | rfl
      | cases hblank

theorem checkExecutable_eq (h : SameShape tree after) (path : String) :
    after.checkExecutable path = tree.checkExecutable path := by
  unfold checkExecutable
  rcases h.resolve_cases path with
    ⟨fault, htree, hafter⟩ | ⟨route, entry, entry', htree, hafter, hblank⟩
  · rw [htree, hafter]
  · rw [htree, hafter]
    cases entry with
    | directory =>
        cases entry' with
        | directory => rfl
        | file bytes executable => cases hblank
    | file bytes executable =>
        cases entry' with
        | directory => cases hblank
        | file bytes' executable' =>
            obtain rfl : executable' = executable := (Entry.file.inj hblank).2
            cases executable' <;> rfl

theorem search_eq (h : SameShape tree after) (name : String) (directories : List String)
    (fault : Fault) : after.search name directories fault = tree.search name directories fault := by
  induction directories generalizing fault with
  | nil => rfl
  | cons directory rest ih =>
      unfold search
      rw [h.checkExecutable_eq]
      cases tree.checkExecutable (join directory [name]) with
      | ok u => rfl
      | error found => cases found <;> first | rfl | exact ih _

theorem findProgram_eq (h : SameShape tree after) (searchPath : Option String) (name : String) :
    after.findProgram searchPath name = tree.findProgram searchPath name := by
  unfold findProgram
  rw [h.checkExecutable_eq, h.search_eq]

end SameShape

/-! Contents. -/

theorem get?_of_resolve (h : tree.resolve path = .ok (route, entry)) :
    tree.get? route = some entry := by
  unfold resolve at h
  simp only [guard_eq_ok, bind_eq_ok] at h
  obtain ⟨-, -, -, found, -, h⟩ := h
  split at h
  · next entry' hentry =>
      obtain ⟨rfl, rfl⟩ := Prod.mk.inj (pure_eq_ok.1 h)
      exact hentry
  · cases h

theorem content_eq_ok {bytes : List UInt8} :
    tree.content path = .ok bytes ↔
      ∃ route executable, tree.resolve path = .ok (route, .file bytes executable) := by
  unfold content
  cases htree : tree.resolve path with
  | error fault => simp [bind, Except.bind]
  | ok found =>
      obtain ⟨route, entry⟩ := found
      cases entry <;> simp [bind, Except.bind, pure, Except.pure]

theorem resolve_of_get? {entry' : Entry} (hshape : SameShape tree after)
    (h : tree.resolve path = .ok (route, entry)) (hafter : after.get? route = some entry') :
    after.resolve path = .ok (route, entry') := by
  rcases hshape.resolve_cases path with ⟨fault, htree, -⟩ | ⟨_, _, found, htree, hfound, -⟩
  · rw [h] at htree
    cases htree
  · rw [h] at htree
    obtain ⟨rfl, rfl⟩ := Prod.mk.inj (Except.ok.inj htree)
    have hget := get?_of_resolve hfound
    rw [hafter] at hget
    rw [hfound, ← Option.some.inj hget]

/-- Paths that do not lead to one place. -/
def Apart (tree : FileTree) (path other : String) : Prop :=
  ∀ route entry entry', tree.resolve path = .ok (route, entry) →
    tree.resolve other ≠ .ok (route, entry')

theorem apart_of_ne (h : (tree.resolve path).toOption.map (·.1) ≠
    (tree.resolve other).toOption.map (·.1)) : Apart tree path other := by
  intro route entry entry' hpath hother
  rw [hpath, hother] at h
  exact h rfl

theorem Apart.symm (h : Apart tree path other) : Apart tree other path :=
  fun route entry entry' hother hpath => h route entry' entry hpath hother

theorem Apart.of_sameShape (h : Apart tree path other) (hshape : SameShape tree after) :
    Apart after path other := by
  intro route entry entry' hpath hother
  rcases hshape.resolve_cases path with ⟨_, -, hafter⟩ | ⟨place, before, _, htree, hafter, -⟩
  · rw [hpath] at hafter
    cases hafter
  rcases hshape.resolve_cases other with
    ⟨_, -, hafter'⟩ | ⟨place', before', _, htree', hafter', -⟩
  · rw [hother] at hafter'
    cases hafter'
  rw [hpath] at hafter
  rw [hother] at hafter'
  obtain ⟨rfl, -⟩ := Prod.mk.inj (Except.ok.inj hafter)
  obtain ⟨rfl, -⟩ := Prod.mk.inj (Except.ok.inj hafter')
  exact h _ before before' htree htree'

/-- What is written to a file that can be read is read there, and nowhere else. -/
theorem exists_overwrite {old : List UInt8} (h : tree.content path = .ok old)
    (bytes : List UInt8) :
    ∃ after, tree.overwrite path bytes = .ok after ∧ SameShape tree after ∧
      after.content path = .ok bytes ∧
      ∀ other, Apart tree path other → after.content other = tree.content other := by
  obtain ⟨route, executable, hresolve⟩ := content_eq_ok.1 h
  have hget := get?_of_resolve hresolve
  have hroute : ¬route.isPrefixOf tree.workingDirectory := by
    intro hprefix
    rw [get?, if_pos hprefix] at hget
    cases hget
  have hset : ∀ key, (tree.set route (.file bytes executable)).get? key =
      if key = route then some (.file bytes executable) else tree.get? key := get?_set hroute
  have hshape : SameShape tree (tree.set route (.file bytes executable)) := by
    refine ⟨rfl, fun key => ?_⟩
    rw [hset]
    by_cases hkey : key = route
    · rw [if_pos hkey, hkey, hget]
      rfl
    · rw [if_neg hkey]
  refine ⟨tree.set route (.file bytes executable), ?_, hshape, ?_, fun other hapart => ?_⟩
  · unfold overwrite
    rw [hresolve]
    rfl
  · have hwritten : (tree.set route (.file bytes executable)).get? route =
        some (.file bytes executable) := by rw [hset, if_pos rfl]
    exact content_eq_ok.2 ⟨route, executable, resolve_of_get? hshape hresolve hwritten⟩
  · unfold content
    rcases hshape.resolve_cases other with ⟨fault, htree, hafter⟩ | ⟨place, entry, _, htree, -, -⟩
    · rw [htree, hafter]
    · have hne : place ≠ route := fun heq => hapart route _ entry hresolve (heq ▸ htree)
      have hkept : (tree.set route (.file bytes executable)).get? place = some entry := by
        rw [hset, if_neg hne, get?_of_resolve htree]
      rw [htree, resolve_of_get? hshape htree hkept]

end FileTree

end RuleTidy.Platform
