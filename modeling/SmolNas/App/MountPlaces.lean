import SmolNas.App.OptionSafety
import SmolNas.Fs.MakeDirs
import SmolNas.Fs.Relative

/-! Where `mkdir -p` and `mount` act for a mount point that `mount_disk` accepts. The check
reads the normal form of the text; the two commands are given the text itself. -/

namespace SmolNas.App

open Py Lib Fs

def inMounts (real : Str) : Bool :=
  real == "/mnt".toList || startswith real "/mnt/".toList || real == "/srv".toList ||
    startswith real "/srv/".toList

def UnderMounts (found : Loc) : Prop := ["mnt".toList] <+: found ∨ ["srv".toList] <+: found

/-- The last argument, which is the mount point of `mkdir -p` and of `mount`. -/
def Command.place (c : Command) : Option Str := c.args.getLast?.map Arg.text

/-- Each directory that a command of the view acts on lies in `/mnt` or `/srv`. It is found
by the kernel for the text of the form, once `mkdir -p` has made what was missing; of the
directories that `mkdir -p` makes on the way nothing is said. -/
def MountsInside (env : Env) (t : Tree) (cwd : Str) (device mountpoint : Option Str) : Prop :=
  (mountDisk env t cwd device mountpoint).All fun handed =>
    ∀ place, handed.command.place = some place →
      ∀ found, (t.makeDirs (pathJoin cwd place)).resolve (pathJoin cwd place) = some found →
        UnderMounts found

/-- No `..` of the mount point stands, in its normal form, against a symbolic link. -/
def CancelsNoMountLink (t : Tree) (cwd mountpoint : Str) : Prop :=
  Tree.CancelsNone (fun names => t.leadsToLink (readFrom cwd mountpoint ++ names))
    (isabs mountpoint) (components mountpoint)

instance (t : Tree) (cwd mountpoint : Str) : Decidable (CancelsNoMountLink t cwd mountpoint) :=
  inferInstanceAs (Decidable (Tree.CancelsNone _ _ _))

/-- The check of `mount_disk` without its `normpath`. -/
def isMountPlaceAsGiven (t : Tree) (cwd mountpoint : Str) : Option Bool :=
  (t.realpath (pathJoin cwd mountpoint)).map inMounts

section Places

variable {t : Tree} {cwd mountpoint : Str}

theorem isMountPlace_eq : isMountPlace t cwd mountpoint =
    (t.realpath (pathJoin cwd (normpath mountpoint))).map inMounts := by
  have joined : (if isabs (normpath mountpoint) then normpath mountpoint
      else pathJoin cwd (normpath mountpoint)) = pathJoin cwd (normpath mountpoint) := by
    split
    next absolute => rw [pathJoin, if_pos absolute]
    next => rfl
  unfold isMountPlace
  dsimp only
  rw [joined]
  cases t.realpath (pathJoin cwd (normpath mountpoint)) with
  | none => rfl
  | some real => rfl

theorem underMounts_iff {found : Loc} (names : ∀ part ∈ found, validName part = true) :
    UnderMounts found ↔ inMounts (locText found) = true := by
  have mnt : ["mnt".toList] <+: found ↔ (locText found == "/mnt".toList ||
      startswith (locText found) "/mnt/".toList) = true :=
    below_iff (by decide) (by decide) names
  have srv : ["srv".toList] <+: found ↔ (locText found == "/srv".toList ||
      startswith (locText found) "/srv/".toList) = true :=
    below_iff (by decide) (by decide) names
  rw [UnderMounts, mnt, srv, inMounts]
  simp only [Bool.or_eq_true, or_assoc]

end Places

section Acts

variable {env : Env} {t : Tree} {cwd : Str} {device mountpoint : Option Str}

theorem mountsInside_iff : MountsInside env t cwd device mountpoint ↔
    (mountpoint.getD [] ≠ [] → isDevice (device.getD []) = true →
      isMountPlace t cwd (mountpoint.getD []) = some true →
      ∀ found, (t.makeDirs (pathJoin cwd (mountpoint.getD []))).resolve
          (pathJoin cwd (mountpoint.getD [])) = some found → UnderMounts found) := by
  constructor
  · intro inside given known place
    have accepted : ∃ next, mountDisk env t cwd device mountpoint =
        (handSudo env (mkdir (mountpoint.getD []))).bind next :=
      mountDisk_accepted given known place
    rcases accepted with ⟨next, view⟩
    unfold MountsInside at inside
    rw [view] at inside
    exact inside.1 _ rfl
  · intro inside
    apply mountDisk_all
    intro given known place
    have both (command : Command) (named : command.place = some (mountpoint.getD [])) :
        ∀ place, (Handed.toSudo command).command.place = some place →
          ∀ found, (t.makeDirs (pathJoin cwd place)).resolve (pathJoin cwd place) = some found →
            UnderMounts found := by
      intro other same
      rw [show (Handed.toSudo command).command = command from rfl, named,
        Option.some.injEq] at same
      rw [← same]
      exact inside given known place
    exact ⟨both _ rfl, both _ rfl⟩

theorem realpath_of_made {p : Str} {found : Loc}
    (resolved : (t.makeDirs p).resolve p = some found) :
    t.realpath p = some (locText found) := by
  have plain := (t.makeDirs p).resolve_plain resolved
  rw [t.realpath_sameLinks (t.makeDirs_sameLinks p)]
  exact (t.makeDirs p).realpath_eq_resolve p plain found resolved

theorem mountsInside_of_cancels (safe : CancelsNoMountLink t cwd (mountpoint.getD [])) :
    MountsInside env t cwd device mountpoint := by
  apply mountsInside_iff.mpr
  intro _ _ place found resolved
  have made := t.makeDirs_sameLinks (pathJoin cwd (mountpoint.getD []))
  rw [isMountPlace_eq, t.realpath_sameLinks made] at place
  rcases Option.map_eq_some_iff.mp place with ⟨real, read, inside⟩
  have plain : '\x00' ∉ pathJoin cwd (normpath (mountpoint.getD [])) := by
    intro member
    rw [Tree.realpath, if_pos member] at read
    cases read
  have same := (t.makeDirs _).realpath_join_normpath cwd (mountpoint.getD [])
    (safe.mono fun _ => t.isLink_made made) plain resolved
  rw [same, Option.some.injEq] at read
  rw [← read] at inside
  exact (underMounts_iff ((t.makeDirs _).resolve_valid _ found resolved)).mpr inside

end Acts

/-- The commands act inside `/mnt` and `/srv` if no `..` cancels a link. In general they do
so exactly for the mount points that the check would also accept as they are given. -/
theorem mounts_inside (env : Env) (t : Tree) (cwd : Str) (device mountpoint : Option Str) :
    (CancelsNoMountLink t cwd (mountpoint.getD []) → MountsInside env t cwd device mountpoint) ∧
    (MountsInside env t cwd device mountpoint ↔
      (mountpoint.getD [] ≠ [] → isDevice (device.getD []) = true →
        isMountPlace t cwd (mountpoint.getD []) = some true →
        (t.makeDirs (pathJoin cwd (mountpoint.getD []))).resolve
            (pathJoin cwd (mountpoint.getD [])) = none ∨
          isMountPlaceAsGiven t cwd (mountpoint.getD []) = some true)) := by
  refine ⟨mountsInside_of_cancels, ?_⟩
  rw [mountsInside_iff]
  refine forall_congr' fun _ => forall_congr' fun _ => forall_congr' fun _ => ?_
  cases resolved : (t.makeDirs (pathJoin cwd (mountpoint.getD []))).resolve
      (pathJoin cwd (mountpoint.getD [])) with
  | none => simp
  | some found =>
      have names := (t.makeDirs _).resolve_valid _ found resolved
      rw [isMountPlaceAsGiven, realpath_of_made resolved, Option.map_some]
      simp only [Option.some.injEq, forall_eq', reduceCtorEq, false_or]
      exact underMounts_iff names

def linkedMounts : Tree where
  entries :=
    [(["mnt".toList], .dir), (["mnt".toList, "disk".toList], .dir),
      (["mnt".toList, "a".toList], .link "/etc/x".toList),
      (["etc".toList], .dir), (["etc".toList, "x".toList], .dir)]
  wellFormed := by decide +kernel

-- a `..` that cancels a plain directory, made on the way
example : CancelsNoMountLink linkedMounts "/".toList "/mnt/new/../disk//b".toList ∧
    (linkedMounts.makeDirs "/mnt/new/../disk//b".toList).resolve "/mnt/new/../disk//b".toList =
      some ["mnt".toList, "disk".toList, "b".toList] := by
  decide +kernel

/-- `/mnt/a/../conf` is checked as `/mnt/conf`; the commands make and mount `/etc/conf`. -/
theorem mount_leaves_mnt : ¬∀ (env : Env) (t : Tree) (cwd : Str) (device mountpoint : Option Str),
    MountsInside env t cwd device mountpoint := by
  intro all
  have inside := mountsInside_iff.mp (all ⟨true, "dev".toList, "secret".toList⟩ linkedMounts
    "/".toList (some "sdb1".toList) (some "/mnt/a/../conf".toList)) (by decide) (by decide +kernel)
    (by decide +kernel) ["etc".toList, "conf".toList] (by decide +kernel)
  unfold UnderMounts at inside
  revert inside
  decide +kernel

end SmolNas.App
