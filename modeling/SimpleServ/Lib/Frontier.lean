import Mathlib.Data.List.Infix
import Mathlib.Data.List.Nodup
import Mathlib.Data.List.Pairwise

/-
  Walking a tree with a stack.

  A place in the tree is the list of steps from its root, so that one place is above another
  when it is a prefix of it. The walk takes a place off its stack, pushes some of its children
  and meets others. `Frontier` says that the stacked places are apart from each other and from
  what has been met, and that what has not been met is below one of them.

  `Frontier.complete`: a walk whose stack has run empty has met every target, and each once.
-/

namespace SimpleServ.Lib

variable {α : Type} {a b d : List α} {x y : α} {stack done : List (List α)}
  {target : List α → Prop} {pushed met : List α}

/-- Neither place is above the other. -/
def Apart (a b : List α) : Prop := ¬ a <+: b ∧ ¬ b <+: a

theorem Apart.child (h : Apart a b) (x : α) : Apart (a ++ [x]) b := by
  refine ⟨fun hp => h.1 ((List.prefix_append a [x]).trans hp), fun hp => ?_⟩
  rcases List.prefix_concat_iff.mp hp with rfl | hp
  · exact h.1 (List.prefix_append a [x])
  · exact h.2 hp

theorem child_prefix_child : a ++ [x] <+: a ++ [y] ↔ x = y := by
  rw [List.prefix_append_right_inj]
  constructor
  · intro h
    exact (List.cons_prefix_cons.mp h).1
  · rintro rfl
    exact List.prefix_rfl

theorem apart_siblings (h : x ≠ y) (a : List α) : Apart (a ++ [x]) (a ++ [y]) :=
  ⟨fun hp => h (child_prefix_child.mp hp), fun hp => h (child_prefix_child.mp hp).symm⟩

/-- A place that is taken off the stack can be replaced by its children. -/
theorem pairwise_apart_children (hn : pushed.Nodup) (h : (d :: stack).Pairwise Apart) :
    (pushed.map (d ++ [·]) ++ stack).Pairwise Apart := by
  obtain ⟨hd, hs⟩ := List.pairwise_cons.mp h
  refine List.pairwise_append.mpr ⟨?_, hs, ?_⟩
  · exact List.pairwise_map.mpr (hn.imp fun hne => apart_siblings hne d)
  · intro p hp q hq
    obtain ⟨x, -, rfl⟩ := List.mem_map.mp hp
    exact (hd q hq).child x

/-- The walk has met the targets `done`, and the others are below its stack. -/
structure Frontier (target : List α → Prop) (stack done : List (List α)) : Prop where
  apart : stack.Pairwise Apart
  nodup : done.Nodup
  sound : ∀ p ∈ done, target p
  fresh : ∀ p ∈ done, ∀ d ∈ stack, ¬ d <+: p
  covered : ∀ p, target p → p ∈ done ∨ ∃ d ∈ stack, d <+: p

theorem frontier_start (target : List α → Prop) : Frontier target [[]] [] where
  apart := List.pairwise_singleton _ _
  nodup := List.nodup_nil
  sound := fun _ hp => nomatch hp
  fresh := fun _ hp => nomatch hp
  covered := fun _ _ => Or.inr ⟨[], List.mem_singleton_self _, List.nil_prefix⟩

/-- One round of the walk. -/
theorem Frontier.step (h : Frontier target (d :: stack) done) (hp : pushed.Nodup) (hm : met.Nodup)
    (hpm : ∀ x ∈ pushed, x ∉ met) (hmet : ∀ x ∈ met, target (d ++ [x])) (hd : ¬ target d)
    (hcov : ∀ x rest, target (d ++ x :: rest) → x ∈ pushed ∨ x ∈ met ∧ rest = []) :
    Frontier target (pushed.map (d ++ [·]) ++ stack) (done ++ met.map (d ++ [·])) where
  apart := pairwise_apart_children hp h.apart
  nodup := by
    refine List.Nodup.append h.nodup (hm.map fun x y he => ?_) ?_
    · exact List.singleton_inj.mp (List.append_cancel_left he)
    · intro p hpd hpm
      obtain ⟨x, -, rfl⟩ := List.mem_map.mp hpm
      exact h.fresh _ hpd d List.mem_cons_self (List.prefix_append d [x])
  sound := by
    intro p hpd
    rcases List.mem_append.mp hpd with hpd | hpd
    · exact h.sound p hpd
    · obtain ⟨x, hx, rfl⟩ := List.mem_map.mp hpd
      exact hmet x hx
  fresh := by
    intro p hpd e he hpe
    rcases List.mem_append.mp hpd with hpd | hpd
    · rcases List.mem_append.mp he with he | he
      · -- what was met before is not below the place whose children are pushed
        obtain ⟨y, -, rfl⟩ := List.mem_map.mp he
        exact h.fresh p hpd d List.mem_cons_self ((List.prefix_append d [y]).trans hpe)
      · exact h.fresh p hpd e (List.mem_cons_of_mem _ he) hpe
    · obtain ⟨x, hx, rfl⟩ := List.mem_map.mp hpd
      rcases List.mem_append.mp he with he | he
      · obtain ⟨y, hy, rfl⟩ := List.mem_map.mp he
        exact hpm y hy (child_prefix_child.mp hpe ▸ hx)
      · exact (((List.pairwise_cons.mp h.apart).1 e he).child x).2 hpe
  covered := by
    intro p hpt
    rcases h.covered p hpt with hpd | ⟨e, he, r, rfl⟩
    · exact Or.inl (List.mem_append_left _ hpd)
    rcases List.mem_cons.mp he with rfl | he
    · cases r with
      | nil => exact absurd (by rwa [List.append_nil] at hpt) hd
      | cons x rest =>
        rcases hcov x rest hpt with hx | ⟨hx, rfl⟩
        · refine Or.inr ⟨e ++ [x], List.mem_append_left _ (List.mem_map_of_mem hx), rest, ?_⟩
          rw [List.append_assoc]
          rfl
        · exact Or.inl (List.mem_append_right _ (List.mem_map_of_mem hx))
    · exact Or.inr ⟨e, List.mem_append_right _ he, r, rfl⟩

/-- Every target has been met, and each once. -/
theorem Frontier.complete (h : Frontier target [] done) :
    done.Nodup ∧ ∀ p, p ∈ done ↔ target p := by
  refine ⟨h.nodup, fun p => ⟨h.sound p, fun hp => ?_⟩⟩
  rcases h.covered p hp with hd | ⟨e, he, -⟩
  · exact hd
  · cases he

end SimpleServ.Lib
