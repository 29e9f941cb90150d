import Mathlib.Data.List.Perm.Subperm
import SmolNas.Fs.Tree

/-! `os.path.realpath`, and when a lexical normal form names the same object. -/

namespace SmolNas.Fs

open Py

/-- The result of `_joinrealpath`: a location without links, or at a link loop
the path up to it with the rest left as it was. -/
inductive Real where
  | ok (loc : Loc)
  | loop (path : Str)
  deriving DecidableEq, Repr

namespace Tree

variable (t : Tree)

/-- The loop of `_joinrealpath`. An entry that is missing is kept as it is. -/
def joinReal (follow : Loc → Loc → Str → Real) : Loc → List Str → Real
  | loc, [] => .ok loc
  | loc, comp :: comps =>
      if isHere comp then joinReal follow loc comps
      else if comp = pardir then joinReal follow loc.dropLast comps
      else
        match t.lstat (loc ++ [comp]) with
        | some (.link target) =>
            match follow (loc ++ [comp]) loc target with
            | .ok found => joinReal follow found comps
            | .loop path => .loop (pathJoin path (join ['/'] comps))
        | _ => joinReal follow (loc ++ [comp]) comps

/-- Nested link resolution; `pending` holds the links that are being resolved.
Each level adds a link of the tree to it, which bounds the depth. -/
def realFrom : Nat → List Loc → Loc → List Str → Real
  | 0, _ => fun loc _ => .loop (locText loc)
  | depth + 1, pending => t.joinReal fun newpath dir target =>
      if newpath ∈ pending then .loop (locText newpath)
      else realFrom depth (newpath :: pending) (base dir target) (components target)

/-- `os.path.realpath(p)` of an absolute path; no value stands for the
`ValueError` that a NUL character raises. -/
def realpath (p : Str) : Option Str :=
  if '\x00' ∈ p then none
  else
    match t.realFrom (t.entries.length + 1) [] [] (components p) with
    | .ok loc => some (locText loc)
    | .loop path => some (normpath path)

/-- The links in `pending` are entries of the tree, no link is there twice, and
each of them costs at least `used`. -/
structure Pending (depth used : Nat) (pending : List Loc) : Prop where
  nodup : pending.Nodup
  entries : ∀ p ∈ pending, p ∈ t.entries.map Prod.fst
  deep : depth + pending.length = t.entries.length + 1
  costs : ∀ p ∈ pending, ∀ target, t.lstat p = some (.link target) →
    ∀ cost found, t.Costs cost (base p.dropLast target) (components target) found → used ≤ cost

theorem Pending.depth_pos {t : Tree} {depth used : Nat} {pending : List Loc}
    (ok : t.Pending depth used pending) : ∃ rest, depth = rest + 1 := by
  have bound := (List.subperm_of_subset ok.nodup ok.entries).length_le
  rw [List.length_map] at bound
  exact ⟨depth - 1, by have := ok.deep; omega⟩

theorem lstat_mem {loc : Loc} {node : Node} (found : t.lstat loc = some node)
    (below : loc ≠ []) : loc ∈ t.entries.map Prod.fst :=
  List.mem_map_of_mem (t.lstat_entry found below)

/-- Where the kernel finds an object, `realpath` finds the same location. -/
theorem realFrom_eq_walk (used : Nat) : ∀ (depth : Nat) (pending : List Loc) (loc : Loc)
    (comps : List Str) (found : Loc), t.Costs used loc comps found →
    t.Pending depth used pending → t.realFrom depth pending loc comps = .ok found := by
  induction used using Nat.strong_induction_on with
  | _ used ih =>
      intro depth pending loc comps found walked ok
      rcases ok.depth_pos with ⟨rest, rfl⟩
      have level : ∀ (comps : List Str) (loc : Loc) (less : Nat), less ≤ used →
          t.Costs less loc comps found →
          t.joinReal (fun newpath dir target =>
            if newpath ∈ pending then .loop (locText newpath)
            else t.realFrom rest (newpath :: pending) (base dir target) (components target))
            loc comps = .ok found := by
        intro comps
        induction comps with
        | nil =>
            intro loc less le walked
            unfold Costs at walked
            rw [walk_nil, Option.some.injEq, Prod.mk.injEq] at walked
            rw [joinReal, walked.1]
        | cons comp comps ihc =>
            intro loc less le walked
            unfold Costs at walked
            have step := t.walk_step less loc comp comps
            rw [walked] at step
            generalize result : some (found, 0) = outcome at step
            rw [joinReal]
            cases step with
            | here isDir same =>
                rw [if_pos same]
                exact ihc loc less le result.symm
            | parent isDir up =>
                subst up
                rw [if_neg (by decide), if_pos rfl]
                exact ihc loc.dropLast less le result.symm
            | enter isDir proper node entry plain =>
                rw [if_neg (by simp [proper.1]), if_neg proper.2, entry]
                cases node with
                | dir => exact ihc _ less le result.symm
                | file => exact ihc _ less le result.symm
                | link target => exact absurd rfl (plain target)
            | follow isDir proper target entry left spent =>
                rw [if_neg (by simp [proper.1]), if_neg proper.2, entry]
                rcases t.costs_append result.symm with ⟨first, second, mid, sum, inner, outer⟩
                have fresh : loc ++ [comp] ∉ pending := by
                  intro member
                  have paid := ok.costs _ member target entry first mid
                    (by rw [List.dropLast_concat]; exact inner)
                  omega
                have nested : t.Pending rest first ((loc ++ [comp]) :: pending) := by
                  refine ⟨List.nodup_cons.mpr ⟨fresh, ok.nodup⟩, ?_, ?_, ?_⟩
                  · intro p member
                    rcases List.mem_cons.mp member with rfl | member
                    · exact t.lstat_mem entry (by simp)
                    · exact ok.entries p member
                  · have := ok.deep
                    rw [List.length_cons]
                    omega
                  · intro p member other link cost place paid
                    rcases List.mem_cons.mp member with rfl | member
                    · rw [entry, Option.some.injEq, Node.link.injEq] at link
                      subst link
                      rw [List.dropLast_concat] at paid
                      exact Nat.le_of_eq (t.costs_unique inner paid)
                    · have old := ok.costs p member other link cost place paid
                      omega
                dsimp only
                rw [if_neg fresh, ih first (by omega) rest _ _ _ mid inner nested]
                exact ihc mid second (by omega) outer
            | fail => cases result
      exact level comps loc used (Nat.le_refl used) walked

theorem realFrom_walk {comps : List Str} {m : Loc × Nat}
    (walked : t.walk maxLinks [] comps = some m) :
    t.realFrom (t.entries.length + 1) [] [] comps = .ok m.1 := by
  rcases t.costs_of_walk walked with ⟨used, cost⟩
  have start : t.Pending (t.entries.length + 1) used [] :=
    ⟨List.nodup_nil, by simp, by simp, by simp⟩
  exact t.realFrom_eq_walk used _ [] [] comps m.1 cost start

theorem realpath_eq_resolve (p : Str) (free : '\x00' ∉ p) (found : Loc)
    (resolved : t.resolve p = some found) : t.realpath p = some (locText found) := by
  rcases Option.map_eq_some_iff.mp resolved with ⟨m, walked, rfl⟩
  rw [realpath, if_neg free, t.realFrom_walk walked]

/-- `os.path.islink` of the absolute path with these names. -/
def isLink (names : List Str) : Bool :=
  match names.getLast?, t.walk maxLinks [] names.dropLast with
  | some name, some (dir, _) =>
      match t.lstat (dir ++ [name]) with
      | some (.link _) => true
      | _ => false
  | _, _ => false

/-- No `..` of the path stands right after a path to a symbolic link. -/
def CancelsNoLink (comps : List Str) : Prop :=
  ∀ i < comps.length, comps[i]? = some pardir →
    t.isLink (normComponents true (comps.take i)) = false

instance (comps : List Str) : Decidable (t.CancelsNoLink comps) :=
  inferInstanceAs (Decidable (∀ i < comps.length, comps[i]? = some pardir →
    t.isLink (normComponents true (comps.take i)) = false))

/-- No `..` that normalisation drops stands after names of which `link` holds. -/
def CancelsNone (link : List Str → Bool) (absolute : Bool) (comps : List Str) : Prop :=
  ∀ i < comps.length, comps[i]? = some pardir →
    normComponents absolute (comps.take i) ≠ [] →
    link (normComponents absolute (comps.take i)) = false

instance (link : List Str → Bool) (absolute : Bool) (comps : List Str) :
    Decidable (CancelsNone link absolute comps) :=
  inferInstanceAs (Decidable (∀ i < comps.length, comps[i]? = some pardir →
    normComponents absolute (comps.take i) ≠ [] →
    link (normComponents absolute (comps.take i)) = false))

section Cancels

variable {link : List Str → Bool} {absolute : Bool} {comps : List Str}

theorem CancelsNone.init {comp : Str} (safe : CancelsNone link absolute (comps ++ [comp])) :
    CancelsNone link absolute comps := by
  intro i bound up
  have later := safe i (by rw [List.length_append]; omega)
    (by rw [List.getElem?_append_left bound]; exact up)
  rwa [List.take_append_of_le_length (Nat.le_of_lt bound)] at later

theorem CancelsNone.last (safe : CancelsNone link absolute (comps ++ [pardir]))
    (names : normComponents absolute comps ≠ []) :
    link (normComponents absolute comps) = false := by
  have here := safe comps.length (by simp) (by simp)
  rw [List.take_left] at here
  exact here names

theorem CancelsNone.mono {less : List Str → Bool} (safe : CancelsNone link absolute comps)
    (fewer : ∀ names, link names = false → less names = false) :
    CancelsNone less absolute comps :=
  fun i bound up names => fewer _ (safe i bound up names)

end Cancels

theorem walk_single {budget : Nat} {loc : Loc} {comp : Str} {m : Loc × Nat}
    (proper : isHere comp = false ∧ comp ≠ pardir)
    (noLink : ∀ target, t.lstat (loc ++ [comp]) ≠ some (.link target))
    (walked : t.walk budget loc [comp] = some m) : m = (loc ++ [comp], budget) := by
  have step := t.walk_step budget loc comp []
  rw [walked] at step
  generalize result : some m = outcome at step
  cases step with
  | here isDir same => simp [proper.1] at same
  | parent isDir up => exact absurd up proper.2
  | enter isDir _ node entry plain => simpa using result
  | follow isDir _ target entry left spent => exact absurd entry (noLink target)
  | fail => cases result

theorem isLink_concat {names : List Str} {name : Str} {dir : Loc × Nat} {target : Str}
    (entered : t.walk maxLinks [] names = some dir)
    (entry : t.lstat (dir.1 ++ [name]) = some (.link target)) :
    t.isLink (names ++ [name]) = true := by
  rw [isLink, List.getLast?_concat, List.dropLast_concat, entered]
  simp [entry]

/-- If no `..` cancels a link, removing `..` lexically does not change the object that the
kernel finds. A relative path is read after `start`, which its normal form leaves alone. -/
theorem walk_norm {absolute : Bool} (start : List Str) (rooted : absolute = true → start = [])
    (comps : List Str) (safe : CancelsNone (fun names => t.isLink (start ++ names)) absolute comps)
    (m : Loc × Nat) (walked : t.walk maxLinks [] (start ++ comps) = some m) :
    ∃ left, m.2 ≤ left ∧
      t.walk maxLinks [] (start ++ normComponents absolute comps) = some (m.1, left) := by
  induction comps using List.reverseRecOn generalizing m with
  | nil => exact ⟨m.2, Nat.le_refl _, walked⟩
  | append_singleton comps comp ih =>
      rw [← List.append_assoc, walk_append] at walked
      rcases Option.bind_eq_some_iff.mp walked with ⟨mid, front, last⟩
      rcases ih safe.init mid front with ⟨left, le, normal⟩
      have unfolded : normComponents absolute (comps ++ [comp]) =
          normStep absolute (normComponents absolute comps) comp := by
        simp [normComponents]
      rw [unfolded]
      -- a component that stays in the normal form is walked as before
      have keep (kept : normStep absolute (normComponents absolute comps) comp =
          normComponents absolute comps ++ [comp]) : ∃ left, m.2 ≤ left ∧
          t.walk maxLinks [] (start ++ normStep absolute (normComponents absolute comps) comp) =
            some (m.1, left) := by
        rcases Nat.exists_eq_add_of_le le with ⟨extra, rfl⟩
        refine ⟨m.2 + extra, Nat.le_add_right _ _, ?_⟩
        rw [kept, ← List.append_assoc, walk_append, normal]
        exact t.walk_mono extra mid.2 mid.1 [comp] m last
      have step := t.walk_step mid.2 mid.1 comp []
      rw [last] at step
      generalize result : some m = outcome at step
      cases step with
      | here isDir same =>
          rw [walk_nil, Option.some.injEq] at result
          subst result
          exact ⟨left, le, by rw [normStep, if_pos same, normal]⟩
      | parent isDir up =>
          subst up
          by_cases leading : (absolute = false ∧ normComponents absolute comps = []) ∨
              (normComponents absolute comps).getLast? = some pardir
          · exact keep (by rw [normStep, if_neg (by decide), if_pos (.inr leading)])
          rw [walk_nil, Option.some.injEq] at result
          subst result
          rw [normStep, if_neg (by decide), if_neg (by simpa using leading)]
          have unlinked := safe.last
          cases names : normComponents absolute comps using List.reverseRecOn with
          | nil =>
              have root : absolute = true := by
                by_contra relative
                exact leading (.inl ⟨by simpa using relative, names⟩)
              rw [names, rooted root, List.append_nil, walk_nil, Option.some.injEq,
                Prod.mk.injEq] at normal
              refine ⟨left, le, ?_⟩
              rw [rooted root, ← normal.1, ← normal.2]
              rfl
          | append_singleton names name =>
              -- the cancelled name was entered as a plain directory
              have proper : isHere name = false ∧ name ≠ pardir := by
                refine ⟨normComponents_named absolute comps name (by simp [names]), ?_⟩
                intro up
                exact leading (.inr (by rw [names, List.getLast?_concat, up]))
              rw [names, ← List.append_assoc, walk_append] at normal
              rcases Option.bind_eq_some_iff.mp normal with ⟨dir, entered, final⟩
              have noLink : ∀ target, t.lstat (dir.1 ++ [name]) ≠ some (.link target) := by
                intro target entry
                have linked := t.isLink_concat entered entry
                rw [List.append_assoc, ← names, unlinked (by simp [names])] at linked
                cases linked
              have place := t.walk_single proper noLink final
              rw [Prod.mk.injEq] at place
              refine ⟨left, le, ?_⟩
              rw [List.dropLast_concat, entered, place.1, place.2, List.dropLast_concat]
      | enter isDir proper node entry plain => exact keep (normStep_proper absolute _ proper)
      | follow isDir proper target entry spare spent =>
          exact keep (normStep_proper absolute _ proper)
      | fail => cases result

theorem walk_normComponents (comps : List Str) (safe : t.CancelsNoLink comps)
    (m : Loc × Nat) (walked : t.walk maxLinks [] comps = some m) :
    ∃ left, m.2 ≤ left ∧
      t.walk maxLinks [] (normComponents true comps) = some (m.1, left) :=
  t.walk_norm [] (fun _ => rfl) comps (fun i bound up _ => safe i bound up) m walked

theorem walk_empty_components (budget : Nat) (front comps : List Str)
    (empty : ∀ comp ∈ front, comp = []) :
    t.walk budget [] (front ++ comps) = t.walk budget [] comps := by
  induction front with
  | nil => rfl
  | cons comp front ih =>
      have blank := empty comp (by simp)
      subst blank
      rw [List.cons_append, walk_cons, if_neg (by simp [lstat, lookup]), if_pos (by decide)]
      exact ih (fun comp member => empty comp (by simp [member]))

theorem resolve_normpath (p : Str) (absolute : isabs p = true)
    (safe : t.CancelsNoLink (components p)) (found : Loc) (resolved : t.resolve p = some found) :
    t.resolve (normpath p) = some found := by
  rcases Option.map_eq_some_iff.mp resolved with ⟨m, walked, rfl⟩
  rcases t.walk_normComponents (components p) safe m walked with ⟨left, -, normal⟩
  rcases components_normpath p absolute with ⟨front, empty, comps⟩
  calc
    t.resolve (normpath p) =
        (t.walk maxLinks [] (front ++ normComponents true (components p))).map Prod.fst := by
      rw [resolve, comps]
    _ = (t.walk maxLinks [] (normComponents true (components p))).map Prod.fst := by
      rw [walk_empty_components t maxLinks front _ empty]
    _ = some m.1 := by
      rw [normal]
      rfl

theorem walk_valid (budget : Nat) (loc : Loc) (comps : List Str) (m : Loc × Nat)
    (valid : ∀ name ∈ loc, validName name = true)
    (walked : t.walk budget loc comps = some m) : ∀ name ∈ m.1, validName name = true := by
  induction budget using Nat.strong_induction_on generalizing loc comps with
  | _ budget ih =>
      induction comps generalizing loc with
      | nil =>
          rw [walk_nil, Option.some.injEq] at walked
          subst walked
          exact valid
      | cons comp comps ihc =>
          have step := t.walk_step budget loc comp comps
          rw [walked] at step
          generalize result : some m = outcome at step
          cases step with
          | here isDir same => exact ihc loc valid result.symm
          | parent isDir up =>
              exact ihc _ (fun name member => valid name (List.dropLast_subset _ member))
                result.symm
          | enter isDir proper node entry plain =>
              exact ihc _ (t.lstat_valid entry) result.symm
          | follow isDir proper target entry left spent =>
              refine ih left (by omega) _ _ ?_ result.symm
              unfold base
              split
              · simp
              · exact valid
          | fail => cases result

theorem walk_plain (budget : Nat) (loc : Loc) (comps : List Str) (m : Loc × Nat)
    (walked : t.walk budget loc comps = some m) : ∀ comp ∈ comps, '\x00' ∉ comp := by
  induction comps generalizing budget loc with
  | nil => simp
  | cons comp comps ih =>
      have named {node : Node} (entry : t.lstat (loc ++ [comp]) = some node) : '\x00' ∉ comp := by
        have valid := t.lstat_valid entry comp (by simp)
        simp [validName] at valid
        exact valid.2
      have step := t.walk_step budget loc comp comps
      rw [walked] at step
      generalize result : some m = outcome at step
      intro other member
      have rest (first : '\x00' ∉ comp) (later : ∃ left place, t.walk left place comps = some m) :
          '\x00' ∉ other := by
        rcases later with ⟨left, place, walked⟩
        rcases List.mem_cons.mp member with same | tail
        · rw [same]
          exact first
        · exact ih left place walked other tail
      cases step with
      | here isDir same =>
          refine rest ?_ ⟨_, _, result.symm⟩
          intro inside
          simp [isHere, curdir] at same
          rcases same with empty | dot
          · simp [empty] at inside
          · simp [dot] at inside
      | parent isDir up =>
          refine rest ?_ ⟨_, _, result.symm⟩
          rw [up]
          decide
      | enter isDir proper node entry plain => exact rest (named entry) ⟨_, _, result.symm⟩
      | follow isDir proper target entry left spent =>
          have whole := result.symm
          rw [walk_append] at whole
          rcases Option.bind_eq_some_iff.mp whole with ⟨mid, -, last⟩
          exact rest (named entry) ⟨_, _, last⟩
      | fail => cases result

theorem resolve_plain {p : Str} {found : Loc} (resolved : t.resolve p = some found) :
    '\x00' ∉ p := by
  rcases Option.map_eq_some_iff.mp resolved with ⟨m, walked, -⟩
  intro member
  rcases mem_components member (by decide) with ⟨comp, inside, bad⟩
  exact t.walk_plain maxLinks [] _ m walked comp inside bad

theorem resolve_valid (p : Str) (found : Loc) (resolved : t.resolve p = some found) :
    ∀ name ∈ found, validName name = true := by
  rcases Option.map_eq_some_iff.mp resolved with ⟨m, walked, rfl⟩
  exact t.walk_valid maxLinks [] _ m (by simp) walked

end Tree

end SmolNas.Fs
