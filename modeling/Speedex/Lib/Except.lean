import Mathlib

/-! Inversion rules for computations in `Except`. -/

namespace Lib

variable {ε α β : Type}

/-- A sequence of two computations returns exactly when both do. -/
theorem bind_eq_ok {x : Except ε α} {f : α → Except ε β} {b : β} :
    x >>= f = .ok b ↔ ∃ a, x = .ok a ∧ f a = .ok b := by
  cases x with
  | error e => exact ⟨nofun, nofun⟩
  | ok a => exact ⟨fun h => ⟨a, rfl, h⟩, fun ⟨_, ha, h⟩ => by cases ha; exact h⟩

/-- A sequence of two computations fails where the first of them does that fails. -/
theorem bind_eq_error {x : Except ε α} {f : α → Except ε β} {e : ε} :
    x >>= f = .error e ↔ x = .error e ∨ ∃ a, x = .ok a ∧ f a = .error e := by
  cases x with
  | error e' =>
    refine ⟨fun h => ?_, fun h => ?_⟩
    · cases h
      exact .inl rfl
    · rcases h with h | ⟨_, h, _⟩
      · cases h
        rfl
      · cases h
  | ok a =>
    refine ⟨fun h => .inr ⟨a, rfl, h⟩, fun h => ?_⟩
    rcases h with h | ⟨_, ha, h⟩
    · cases h
    · cases ha
      exact h

theorem map_eq_ok {x : Except ε α} {f : α → β} {b : β} :
    f <$> x = .ok b ↔ ∃ a, x = .ok a ∧ f a = b := by
  cases x with
  | error e => exact ⟨nofun, nofun⟩
  | ok a => exact ⟨fun h => ⟨a, rfl, Except.ok.inj h⟩, fun ⟨_, ha, h⟩ => by cases ha; cases h; rfl⟩

/-- A sequence of two computations that return returns. -/
theorem bind_returns {x : Except ε α} {f : α → Except ε β} (hx : ∃ a, x = .ok a)
    (hf : ∀ a, x = .ok a → ∃ b, f a = .ok b) : ∃ b, x >>= f = .ok b := by
  obtain ⟨a, ha⟩ := hx
  obtain ⟨b, hb⟩ := hf a ha
  exact ⟨b, bind_eq_ok.mpr ⟨a, ha, hb⟩⟩

@[simp] theorem ok_bind (a : α) (f : α → Except ε β) : (Except.ok a >>= f) = f a := rfl

@[simp] theorem error_bind (e : ε) (f : α → Except ε β) :
    ((Except.error e : Except ε α) >>= f) = .error e := rfl

/-- The computation returns a value that satisfies `p`. -/
def returns (x : Except ε α) (p : α → Bool) : Bool :=
  match x with
  | .error _ => false
  | .ok a => p a

theorem returns_iff {x : Except ε α} {p : α → Bool} :
    returns x p = true ↔ ∃ a, x = .ok a ∧ p a = true := by
  cases x with
  | error e => exact ⟨nofun, nofun⟩
  | ok a => exact ⟨fun h => ⟨a, rfl, h⟩, fun ⟨_, ha, h⟩ => by cases ha; exact h⟩

/-- The computation fails with the error `e`. -/
def throws [DecidableEq ε] (x : Except ε α) (e : ε) : Bool :=
  match x with
  | .error e' => e' = e
  | .ok _ => false

theorem throws_iff [DecidableEq ε] {x : Except ε α} {e : ε} : throws x e = true ↔ x = .error e := by
  cases x with
  | error e' => simp [throws]
  | ok a => exact ⟨nofun, nofun⟩

/-- A fold of fallible steps, from the left. -/
theorem foldlM_cons {f : β → α → Except ε β} {b c : β} {a : α} {l : List α} :
    (a :: l).foldlM f b = .ok c ↔ ∃ b', f b a = .ok b' ∧ l.foldlM f b' = .ok c := by
  rw [List.foldlM_cons, bind_eq_ok]

/-- A fold that returns has taken every step. -/
theorem foldlM_mem {f : β → α → Except ε β} {l : List α} {b c : β} {a : α}
    (h : l.foldlM f b = .ok c) (ha : a ∈ l) : ∃ b' b'', f b' a = .ok b'' := by
  induction l generalizing b with
  | nil => exact absurd ha List.not_mem_nil
  | cons a' l ih =>
    obtain ⟨b', hb', h⟩ := foldlM_cons.mp h
    rcases List.mem_cons.mp ha with rfl | ha
    · exact ⟨b, b', hb'⟩
    · exact ih h ha

/-- A fold fails at one of its steps. -/
theorem foldlM_eq_error {f : β → α → Except ε β} {l : List α} {b : β} {e : ε}
    (h : l.foldlM f b = .error e) : ∃ b' a, a ∈ l ∧ f b' a = .error e := by
  induction l generalizing b with
  | nil => cases h
  | cons a l ih =>
    rw [List.foldlM_cons] at h
    rcases bind_eq_error.mp h with h | ⟨b', -, h⟩
    · exact ⟨b, a, List.mem_cons_self, h⟩
    · obtain ⟨b'', a', hmem, h⟩ := ih h
      exact ⟨b'', a', List.mem_cons_of_mem a hmem, h⟩

theorem allM_eq_ok_true {p : α → Except ε Bool} {l : List α} :
    l.allM p = .ok true ↔ ∀ a ∈ l, p a = .ok true := by
  induction l with
  | nil => simp [pure, Except.pure]
  | cons a l ih =>
    rw [List.allM, bind_eq_ok, List.forall_mem_cons, ← ih]
    constructor
    · rintro ⟨b, hb, h⟩
      cases b with
      | false => cases h
      | true => exact ⟨hb, h⟩
    · rintro ⟨ha, h⟩
      exact ⟨true, ha, h⟩

/-- What holds at the start of a fold and is kept by every step holds at its end. -/
theorem foldlM_invariant {f : β → α → Except ε β} {P : β → Prop} {l : List α} {b c : β}
    (hstep : ∀ b a b', a ∈ l → P b → f b a = .ok b' → P b') (hb : P b)
    (h : l.foldlM f b = .ok c) : P c := by
  induction l generalizing b with
  | nil => cases h; exact hb
  | cons a l ih =>
    obtain ⟨b', hf, h⟩ := foldlM_cons.mp h
    exact ih (fun b a b' ha => hstep b a b' (List.mem_cons_of_mem _ ha))
      (hstep b a b' List.mem_cons_self hb hf) h

/-- What a step takes from each count to the next holds after a loop that counts up. -/
theorem foldlM_range {f : β → Nat → Except ε β} {P : Nat → β → Prop} {n : Nat} {b : β}
    (hstep : ∀ i b, i < n → P i b → ∃ b', f b i = .ok b' ∧ P (i + 1) b') (hb : P 0 b) :
    ∃ c, (List.range n).foldlM f b = .ok c ∧ P n c := by
  induction n with
  | zero => exact ⟨b, rfl, hb⟩
  | succ n ih =>
    obtain ⟨c, hc, hP⟩ := ih fun i b hi => hstep i b (Nat.lt_succ_of_lt hi)
    obtain ⟨c', hc', hP'⟩ := hstep n c (Nat.lt_succ_self n) hP
    refine ⟨c', ?_, hP'⟩
    rw [List.range_succ, List.foldlM_append, hc, ok_bind, List.foldlM_cons, hc']
    rfl

theorem mapM_cons {f : α → Except ε β} {a : α} {l : List α} {bs : List β} :
    (a :: l).mapM f = .ok bs ↔ ∃ b bs', f a = .ok b ∧ l.mapM f = .ok bs' ∧ bs = b :: bs' := by
  rw [List.mapM_cons, bind_eq_ok]
  constructor
  · rintro ⟨b, hb, h⟩
    obtain ⟨bs', hbs', h⟩ := bind_eq_ok.mp h
    exact ⟨b, bs', hb, hbs', (Except.ok.inj h).symm⟩
  · rintro ⟨b, bs', hb, hbs', rfl⟩
    exact ⟨b, hb, bind_eq_ok.mpr ⟨bs', hbs', rfl⟩⟩

/-- Every result of a map comes from one of the inputs. -/
theorem mem_of_mapM {f : α → Except ε β} {l : List α} {bs : List β} (h : l.mapM f = .ok bs) {b : β}
    (hb : b ∈ bs) : ∃ a ∈ l, f a = .ok b := by
  induction l generalizing bs with
  | nil =>
    cases h
    exact absurd hb List.not_mem_nil
  | cons a l ih =>
    obtain ⟨b', bs', ha, hl, rfl⟩ := mapM_cons.mp h
    rcases List.mem_cons.mp hb with rfl | hb
    · exact ⟨a, List.mem_cons_self, ha⟩
    · obtain ⟨a', ha', hfa⟩ := ih hl hb
      exact ⟨a', List.mem_cons_of_mem _ ha', hfa⟩

/-- A map that returns has a result for every input. -/
theorem mapM_ok_of_mem {f : α → Except ε β} {l : List α} {bs : List β} (h : l.mapM f = .ok bs)
    {a : α} (ha : a ∈ l) : ∃ b ∈ bs, f a = .ok b := by
  induction l generalizing bs with
  | nil => exact absurd ha List.not_mem_nil
  | cons a' l ih =>
    obtain ⟨b, bs', hb, hl, rfl⟩ := mapM_cons.mp h
    rcases List.mem_cons.mp ha with rfl | ha
    · exact ⟨b, List.mem_cons_self, hb⟩
    · obtain ⟨b', hb', hfa⟩ := ih hl ha
      exact ⟨b', List.mem_cons_of_mem _ hb', hfa⟩

/-- The results of a map stand where their inputs do. -/
theorem getElem?_of_mapM {f : α → Except ε β} {l : List α} {bs : List β} (h : l.mapM f = .ok bs)
    {i : Nat} {a : α} (ha : l[i]? = some a) : ∃ b, bs[i]? = some b ∧ f a = .ok b := by
  induction l generalizing bs i with
  | nil => simp at ha
  | cons a' l ih =>
    obtain ⟨b, bs', hb, hl, rfl⟩ := mapM_cons.mp h
    cases i with
    | zero =>
      cases ha
      exact ⟨b, rfl, hb⟩
    | succ i => exact ih hl ha

/-- A map returns the results that stand where its inputs do. -/
theorem mapM_of_getElem? {f : α → Except ε β} {l : List α} {bs : List β}
    (hlen : l.length = bs.length)
    (h : ∀ (i : Nat) a, l[i]? = some a → ∃ b, bs[i]? = some b ∧ f a = .ok b) : l.mapM f = .ok bs := by
  induction l generalizing bs with
  | nil =>
    cases bs with
    | nil => rfl
    | cons b bs => cases hlen
  | cons a l ih =>
    cases bs with
    | nil => cases hlen
    | cons b bs =>
      obtain ⟨_, hb, hfa⟩ := h 0 a rfl
      cases hb
      exact mapM_cons.mpr ⟨b, bs, hfa, ih (Nat.succ.inj hlen) fun i => h (i + 1), rfl⟩

theorem length_of_mapM {f : α → Except ε β} {l : List α} {bs : List β} (h : l.mapM f = .ok bs) :
    bs.length = l.length := by
  induction l generalizing bs with
  | nil =>
    cases h
    rfl
  | cons a l ih =>
    obtain ⟨b, bs', -, hl, rfl⟩ := mapM_cons.mp h
    simp [ih hl]

/-- What every result keeps of its input. -/
theorem map_of_mapM {γ : Type} {f : α → Except ε β} {g : α → γ} {g' : β → γ} {l : List α} {bs : List β}
    (h : l.mapM f = .ok bs) (hf : ∀ a b, f a = .ok b → g' b = g a) : bs.map g' = l.map g := by
  induction l generalizing bs with
  | nil =>
    cases h
    rfl
  | cons a l ih =>
    obtain ⟨b, bs', hb, hl, rfl⟩ := mapM_cons.mp h
    rw [List.map_cons, List.map_cons, ih hl, hf a b hb]

/-- A map whose steps all return. -/
theorem exists_mapM {f : α → Except ε β} {l : List α} (h : ∀ a ∈ l, ∃ b, f a = .ok b) :
    ∃ bs, l.mapM f = .ok bs := by
  induction l with
  | nil => exact ⟨[], rfl⟩
  | cons a l ih =>
    obtain ⟨b, hb⟩ := h a List.mem_cons_self
    obtain ⟨bs, hbs⟩ := ih fun a ha => h a (List.mem_cons_of_mem _ ha)
    exact ⟨b :: bs, mapM_cons.mpr ⟨b, bs, hb, hbs, rfl⟩⟩

/-- A map whose steps all return what `g` says of their inputs. -/
theorem mapM_returns {γ : Type} {f : α → Except ε β} {g : α → γ} {g' : β → γ} {l : List α}
    (h : ∀ a ∈ l, ∃ b, f a = .ok b ∧ g' b = g a) :
    ∃ bs, l.mapM f = .ok bs ∧ bs.map g' = l.map g := by
  induction l with
  | nil => exact ⟨[], rfl, rfl⟩
  | cons a l ih =>
    obtain ⟨b, hb, hg⟩ := h a List.mem_cons_self
    obtain ⟨bs, hbs, hmap⟩ := ih fun a ha => h a (List.mem_cons_of_mem _ ha)
    refine ⟨b :: bs, mapM_cons.mpr ⟨b, bs, hb, hbs, rfl⟩, ?_⟩
    rw [List.map_cons, List.map_cons, hg, hmap]

end Lib
