import Mathlib.Algebra.Order.Group.Defs

/-! Lists of times of which only the recent ones count.

A reader at time `now` counts the times less than `width` before it. Whoever prunes
the list at an earlier time changes no later count, as long as the clock does not run
backwards. -/

namespace SmolNas.Lib.Window

section Recent

variable {T : Type} [AddCommGroup T] [LinearOrder T]

def recent (width now : T) (times : List T) : List T := times.filter fun t => now - t < width

def AgreeFrom (width now : T) (kept times : List T) : Prop :=
  ∀ later, now ≤ later → recent width later kept = recent width later times

variable {width now earlier : T} {kept times : List T}

theorem agree_refl (width now : T) (times : List T) : AgreeFrom width now times times :=
  fun _ _ => rfl

theorem agree_later (agree : AgreeFrom width earlier kept times) (le : earlier ≤ now) :
    AgreeFrom width now kept times :=
  fun later after => agree later (le_trans le after)

theorem agree_concat (agree : AgreeFrom width now kept times) (t : T) :
    AgreeFrom width now (kept ++ [t]) (times ++ [t]) := by
  intro later after
  have same := agree later after
  rw [recent] at same ⊢
  rw [List.filter_append, same, recent, recent, List.filter_append]

variable [IsOrderedAddMonoid T]

theorem recent_recent (le : earlier ≤ now) (times : List T) :
    recent width now (recent width earlier times) = recent width now times := by
  rw [recent, recent, List.filter_filter, recent]
  apply List.filter_congr
  intro t _
  rw [Bool.and_eq_left_iff_imp, decide_eq_true_eq, decide_eq_true_eq]
  intro counted
  exact lt_of_le_of_lt (sub_le_sub_right le t) counted

theorem agree_recent (agree : AgreeFrom width now kept times) :
    AgreeFrom width now (recent width now kept) times := by
  intro later after
  rw [recent_recent after]
  exact agree later after

end Recent

section Count

variable {T : Type} [LinearOrder T]

def countFrom (a : T) (times : List T) : Nat := times.countP fun t => a ≤ t

theorem countFrom_concat (a : T) (times : List T) (t : T) :
    countFrom a (times ++ [t]) = countFrom a times + if a ≤ t then 1 else 0 := by
  simp [countFrom, List.countP_cons]

variable [AddCommGroup T] [IsOrderedAddMonoid T] {width now a : T}

theorem recent_of_from (inside : now < a + width) {t : T} (le : a ≤ t) : now - t < width := by
  rw [sub_lt_iff_lt_add']
  exact lt_of_lt_of_le inside (add_le_add_left le width)

theorem countFrom_le_recent (inside : now < a + width) (times : List T) :
    countFrom a times ≤ (recent width now times).length := by
  rw [countFrom, recent, ← List.countP_eq_length_filter]
  apply List.countP_mono_left
  intro t _ start
  rw [decide_eq_true_eq] at start ⊢
  exact recent_of_from inside start

theorem countFrom_recent (inside : now < a + width) (times : List T) :
    countFrom a (recent width now times) = countFrom a times := by
  rw [countFrom, recent, List.countP_filter, countFrom]
  apply List.countP_congr
  intro t _
  rw [Bool.and_eq_true, decide_eq_true_eq, decide_eq_true_eq]
  exact and_iff_left_of_imp (recent_of_from inside)

end Count

end SmolNas.Lib.Window
