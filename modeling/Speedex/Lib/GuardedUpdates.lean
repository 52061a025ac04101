import Mathlib.Data.List.Perm.Basic

/-! Updates that are guarded and commute.  An update takes effect if the state allows it.  If one
update forbids another only when the two are incompatible, whatever the state is, a sequence of
updates runs through exactly when the first state allows each of them and no two are incompatible;
and then the order of the sequence does not matter. -/

namespace Lib

variable {S U : Type}

/-- The updates of a state, with what they do where they are allowed. -/
structure GuardedUpdates (S U : Type) where
  allowed : S → U → Bool
  effect : S → U → S
  /-- the two updates can both be made -/
  compatible : U → U → Prop
  compatible_symm : ∀ {u v}, compatible u v → compatible v u
  effect_comm : ∀ s u v, effect (effect s u) v = effect (effect s v) u
  allowed_effect : ∀ {s u}, allowed s u = true →
    ∀ v, (allowed (effect s u) v = true ↔ allowed s v = true ∧ compatible u v)

namespace GuardedUpdates

variable (G : GuardedUpdates S U) {s s' : S} {u : U} {l l' : List U}

/-- An update, if it is allowed. -/
def apply (s : S) (u : U) : Option S := if G.allowed s u then some (G.effect s u) else none

/-- A sequence of updates, up to the first that is not allowed. -/
def run (s : S) (l : List U) : Option S := l.foldlM G.apply s

@[simp] theorem run_nil (s : S) : G.run s [] = some s := rfl

@[simp] theorem run_cons (s : S) (u : U) (l : List U) :
    G.run s (u :: l) = (G.apply s u).bind fun s' => G.run s' l := rfl

theorem run_append (s : S) (l l' : List U) :
    G.run s (l ++ l') = (G.run s l).bind fun s' => G.run s' l' := by
  simp only [run, List.foldlM_append]
  rfl

theorem run_append_eq_some :
    G.run s (l ++ l') = some s' ↔ ∃ s₁, G.run s l = some s₁ ∧ G.run s₁ l' = some s' := by
  rw [run_append, Option.bind_eq_some_iff]

theorem apply_eq_some : G.apply s u = some s' ↔ G.allowed s u = true ∧ s' = G.effect s u := by
  unfold apply
  split
  · rename_i h
    simp [h, eq_comm]
  · rename_i h
    simp [h]

theorem run_singleton :
    G.run s [u] = some s' ↔ G.allowed s u = true ∧ s' = G.effect s u := by
  rw [run_cons, ← apply_eq_some]
  cases G.apply s u <;> rfl

/-- A sequence runs through if the first state allows each update and no two are incompatible. -/
theorem run_eq_some : G.run s l = some s' ↔
    (∀ u ∈ l, G.allowed s u = true) ∧ l.Pairwise G.compatible ∧ s' = l.foldl G.effect s := by
  induction l generalizing s with
  | nil =>
    rw [run_nil, Option.some_inj]
    simp [eq_comm (a := s)]
  | cons u l ih =>
    rw [run_cons, Option.bind_eq_some_iff, List.pairwise_cons, List.forall_mem_cons, List.foldl_cons]
    constructor
    · rintro ⟨s₁, hu, hl⟩
      obtain ⟨hallowed, rfl⟩ := G.apply_eq_some.mp hu
      obtain ⟨hrest, hpairs, rfl⟩ := ih.mp hl
      have hboth : ∀ v ∈ l, G.allowed s v = true ∧ G.compatible u v :=
        fun v hv => (G.allowed_effect hallowed v).mp (hrest v hv)
      exact ⟨⟨hallowed, fun v hv => (hboth v hv).1⟩, ⟨fun v hv => (hboth v hv).2, hpairs⟩, rfl⟩
    · rintro ⟨⟨hallowed, hrest⟩, ⟨hfirst, hpairs⟩, rfl⟩
      refine ⟨G.effect s u, G.apply_eq_some.mpr ⟨hallowed, rfl⟩, ih.mpr ⟨?_, hpairs, rfl⟩⟩
      intro v hv
      exact (G.allowed_effect hallowed v).mpr ⟨hrest v hv, hfirst v hv⟩

/-- The order of the updates does not matter. -/
theorem run_perm (h : l.Perm l') (s : S) : G.run s l = G.run s l' := by
  refine Option.ext fun s' => ?_
  rw [run_eq_some, run_eq_some, h.pairwise_iff fun huv => G.compatible_symm huv,
    h.foldl_eq' fun u _ v _ t => G.effect_comm t u v]
  simp only [h.mem_iff]

end GuardedUpdates

/-! ### Changes at places of a list -/

theorem modify_comm {α : Type} {f g : α → α} (h : ∀ a, f (g a) = g (f a)) (l : List α) (i j : Nat) :
    (l.modify i f).modify j g = (l.modify j g).modify i f := by
  by_cases hij : i = j
  · subst hij
    rw [List.modify_modify_eq, List.modify_modify_eq]
    exact congrArg _ (funext fun a => (h a).symm)
  · exact List.modify_modify_ne f g l hij

/-- A change at one place, seen through a map. -/
theorem map_modify_eq {α β : Type} {g : α → β} {f : α → α} {f' : β → β} {l : List α} {i : Nat}
    (h : ∀ a, l[i]? = some a → g (f a) = f' (g a)) : (l.modify i f).map g = (l.map g).modify i f' := by
  refine List.ext_getElem? fun j => ?_
  rw [List.getElem?_map, List.getElem?_modify, List.getElem?_modify, List.getElem?_map]
  by_cases hij : i = j
  · subst hij
    cases hi : l[i]? with
    | none => rfl
    | some a => simp [h a hi]
  · simp [hij]

end Lib
