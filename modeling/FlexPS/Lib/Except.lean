import Mathlib

/-! # Computations that may stop with a fault

Inversion of `>>=`, and the lifting of a relation on results to a relation on
computations: two computations agree when both stop with the same fault or both
return related values, or they agree up to the point where the first one can do no more.
-/

namespace Except

variable {ε α β γ δ : Type}

theorem bind_eq_ok {x : Except ε α} {f : α → Except ε β} {b : β} :
    (x >>= f) = .ok b ↔ ∃ a, x = .ok a ∧ f a = .ok b := by
  cases x with
  | error e => exact ⟨fun h => (nomatch h), fun ⟨_, h, _⟩ => (nomatch h)⟩
  | ok a => exact ⟨fun h => ⟨a, rfl, h⟩, fun ⟨_, h, hf⟩ => by cases h; exact hf⟩

@[simp] theorem ok_bind (a : α) (f : α → Except ε β) : ((.ok a : Except ε α) >>= f) = f a := rfl

@[simp] theorem error_bind (e : ε) (f : α → Except ε β) :
    ((.error e : Except ε α) >>= f) = .error e := rfl

@[simp] theorem pure_eq_ok (a : α) : (pure a : Except ε α) = .ok a := rfl

theorem bind_eq_error {x : Except ε α} {f : α → Except ε β} {e : ε} :
    (x >>= f) = .error e ↔ x = .error e ∨ ∃ a, x = .ok a ∧ f a = .error e := by
  cases x <;> simp

/-- Both stop with the same fault, or both return and the results are related. -/
inductive Sim (R : α → β → Prop) : Except ε α → Except ε β → Prop where
  | ok : R a b → Sim R (.ok a) (.ok b)
  | error (e : ε) : Sim R (.error e) (.error e)

namespace Sim

variable {R : α → β → Prop} {S : γ → δ → Prop}

theorem bind {x : Except ε α} {y : Except ε β} {f : α → Except ε γ} {g : β → Except ε δ}
    (h : Sim R x y) (next : ∀ a b, R a b → Sim S (f a) (g b)) : Sim S (x >>= f) (y >>= g) := by
  cases h with
  | ok r => exact next _ _ r
  | error e => exact .error e

/-- `bind` for two computations that start alike. -/
theorem bind_same {x : Except ε α} {f : α → Except ε γ} {g : α → Except ε δ}
    (next : ∀ a, x = .ok a → Sim S (f a) (g a)) : Sim S (x >>= f) (x >>= g) := by
  cases x with
  | ok a => exact next a rfl
  | error e => exact .error e

theorem ite {c : Prop} [Decidable c] {x x' : Except ε α} {y y' : Except ε β}
    (pos : c → Sim R x y) (neg : ¬ c → Sim R x' y') :
    Sim R (if c then x else x') (if c then y else y') := by
  split
  · next h => exact pos h
  · next h => exact neg h

theorem exists_ok {x : Except ε α} {y : Except ε β} {a : α}
    (h : Sim R x y) (hx : x = .ok a) : ∃ b, y = .ok b ∧ R a b := by
  cases h with
  | ok r => cases hx; exact ⟨_, rfl, r⟩
  | error e => cases hx

theorem error_iff {x : Except ε α} {y : Except ε β} (h : Sim R x y) {e : ε} :
    x = .error e ↔ y = .error e := by
  cases h with
  | ok r => simp
  | error e => simp

theorem symm {x : Except ε α} {y : Except ε β} (h : Sim R x y) :
    Sim (fun b a => R a b) y x := by
  cases h with
  | ok r => exact .ok r
  | error e => exact .error e

theorem mono {R' : α → β → Prop} {x : Except ε α} {y : Except ε β} (h : Sim R x y)
    (imp : ∀ a b, R a b → R' a b) : Sim R' x y := by
  cases h with
  | ok r => exact .ok (imp _ _ r)
  | error e => exact .error e

end Sim

/-- The first does what the second does as long as it can. Where it cannot, it stops with
    `fault`, and what the second then returns does not fit; `limited` says that this can happen. -/
inductive UpTo (fault : ε) (limited : Prop) (Fits : β → Prop) (R : α → β → Prop) :
    Except ε α → Except ε β → Prop where
  | ok : Fits b → R a b → UpTo fault limited Fits R (.ok a) (.ok b)
  | error (e : ε) : UpTo fault limited Fits R (.error e) (.error e)
  | stopped : limited → (∀ b, y = .ok b → ¬ Fits b) → UpTo fault limited Fits R (.error fault) y

namespace UpTo

variable {fault : ε} {limited : Prop} {Fits : β → Prop} {Fits' : δ → Prop} {R : α → β → Prop}
  {S : γ → δ → Prop} {x : Except ε α} {y : Except ε β}

/-- What does not fit must not be lost in the rest of the computation. -/
theorem bind {f : α → Except ε γ} {g : β → Except ε δ} (h : UpTo fault limited Fits R x y)
    (next : ∀ a b, y = .ok b → Fits b → R a b → UpTo fault limited Fits' S (f a) (g b))
    (lost : ∀ b d, g b = .ok d → Fits' d → Fits b) :
    UpTo fault limited Fits' S (x >>= f) (y >>= g) := by
  cases h with
  | ok fits r => exact next _ _ rfl fits r
  | error e => exact .error e
  | stopped can unfit =>
      refine .stopped can fun d returned fits => ?_
      obtain ⟨b, first, rest⟩ := bind_eq_ok.mp returned
      exact unfit b first (lost b d rest fits)

theorem bind_same {f : α → Except ε γ} {g : α → Except ε δ} {x : Except ε α}
    (next : ∀ a, x = .ok a → UpTo fault limited Fits' S (f a) (g a)) :
    UpTo fault limited Fits' S (x >>= f) (x >>= g) := by
  cases x with
  | ok a => exact next a rfl
  | error e => exact .error e

theorem ite {c : Prop} [Decidable c] {x' : Except ε α} {y' : Except ε β}
    (pos : c → UpTo fault limited Fits R x y) (neg : ¬ c → UpTo fault limited Fits R x' y') :
    UpTo fault limited Fits R (if c then x else x') (if c then y else y') := by
  split
  · next h => exact pos h
  · next h => exact neg h

theorem mono {Fits₂ : β → Prop} {R' : α → β → Prop} (h : UpTo fault limited Fits R x y)
    (imp : ∀ a b, y = .ok b → Fits b → R a b → Fits₂ b ∧ R' a b)
    (back : ∀ b, y = .ok b → Fits₂ b → Fits b) : UpTo fault limited Fits₂ R' x y := by
  cases h with
  | ok fits r => exact .ok (imp _ _ rfl fits r).1 (imp _ _ rfl fits r).2
  | error e => exact .error e
  | stopped can unfit => exact .stopped can fun b returned fits => unfit b returned (back b returned fits)

theorem exists_ok {a : α} (h : UpTo fault limited Fits R x y) (hx : x = .ok a) :
    ∃ b, y = .ok b ∧ Fits b ∧ R a b := by
  cases h with
  | ok fits r => cases hx; exact ⟨_, rfl, fits, r⟩
  | error e => cases hx
  | stopped _ _ => cases hx

/-- What fits is returned by both. -/
theorem exists_of_fits {b : β} (h : UpTo fault limited Fits R x y) (hy : y = .ok b) (fits : Fits b) :
    ∃ a, x = .ok a ∧ R a b := by
  cases h with
  | ok _ r => cases hy; exact ⟨_, rfl, r⟩
  | error e => cases hy
  | stopped _ unfit => exact absurd fits (unfit b hy)

theorem error_of_ne {e : ε} (h : UpTo fault limited Fits R x y) (hx : x = .error e) (other : e ≠ fault) :
    y = .error e := by
  cases h with
  | ok _ _ => cases hx
  | error e' => cases hx; rfl
  | stopped _ _ => cases hx; exact absurd rfl other

theorem of_sim (h : Sim R x y) (fits : ∀ b, y = .ok b → Fits b) : UpTo fault limited Fits R x y := by
  cases h with
  | ok r => exact .ok (fits _ rfl) r
  | error e => exact .error e

/-- Without limits the two do the same. -/
theorem sim (h : UpTo fault limited Fits R x y) (unlimited : ¬ limited) : Sim R x y := by
  cases h with
  | ok _ r => exact .ok r
  | error e => exact .error e
  | stopped can _ => exact absurd can unlimited

end UpTo

theorem mapM_eq_ok_iff {f : α → Except ε β} {as : List α} {bs : List β} :
    as.mapM f = .ok bs ↔ List.Forall₂ (fun a b => f a = .ok b) as bs := by
  induction as generalizing bs with
  | nil => cases bs <;> simp
  | cons a as ih =>
      rw [List.mapM_cons, bind_eq_ok]
      constructor
      · rintro ⟨b, hb, h⟩
        obtain ⟨rest, hrest, h⟩ := bind_eq_ok.mp h
        cases h
        exact .cons hb (ih.mp hrest)
      · intro h
        cases h with
        | cons hb hrest => exact ⟨_, hb, by rw [ih.mpr hrest]; rfl⟩

theorem mapM_eq_error {f : α → Except ε β} {as : List α} {e : ε} (h : as.mapM f = .error e) :
    ∃ a ∈ as, f a = .error e := by
  induction as with
  | nil => cases h
  | cons a as ih =>
      rw [List.mapM_cons] at h
      obtain h | ⟨b, -, h⟩ := bind_eq_error.mp h
      · exact ⟨a, List.mem_cons_self, h⟩
      · obtain h | ⟨rest, -, h⟩ := bind_eq_error.mp h
        · obtain ⟨a', member, failed⟩ := ih h
          exact ⟨a', List.mem_cons_of_mem _ member, failed⟩
        · cases h

theorem mapM_ok {f : α → Except ε β} {as : List α} (each : ∀ a ∈ as, ∃ b, f a = .ok b) :
    ∃ bs, as.mapM f = .ok bs := by
  cases mapped : as.mapM f with
  | ok bs => exact ⟨bs, rfl⟩
  | error e =>
      obtain ⟨a, member, failed⟩ := mapM_eq_error mapped
      obtain ⟨b, taken⟩ := each a member
      cases failed.symm.trans taken

theorem foldlM_eq_error {f : β → α → Except ε β} {as : List α} {b : β} {e : ε}
    (h : as.foldlM f b = .error e) : ∃ b', ∃ a ∈ as, f b' a = .error e := by
  induction as generalizing b with
  | nil => cases h
  | cons a as ih =>
      rw [List.foldlM_cons] at h
      obtain h | ⟨b', -, h⟩ := bind_eq_error.mp h
      · exact ⟨b, a, List.mem_cons_self, h⟩
      · obtain ⟨b'', a', member, failed⟩ := ih h
        exact ⟨b'', a', List.mem_cons_of_mem _ member, failed⟩

theorem forM_eq_ok_iff {f : α → Except ε Unit} {as : List α} :
    forM as f = .ok ⟨⟩ ↔ ∀ a ∈ as, f a = .ok ⟨⟩ := by
  induction as with
  | nil => exact ⟨fun _ a member => absurd member List.not_mem_nil, fun _ => rfl⟩
  | cons a as ih =>
      rw [List.forM_cons, bind_eq_ok, List.forall_mem_cons, ← ih]
      exact ⟨fun ⟨_, first, rest⟩ => ⟨first, rest⟩, fun ⟨first, rest⟩ => ⟨_, first, rest⟩⟩

theorem forM_eq_error {f : α → Except ε Unit} {as : List α} {e : ε} (h : forM as f = .error e) :
    ∃ a ∈ as, f a = .error e := by
  induction as with
  | nil => cases h
  | cons a as ih =>
      rw [List.forM_cons] at h
      obtain h | ⟨_, -, h⟩ := bind_eq_error.mp h
      · exact ⟨a, List.mem_cons_self, h⟩
      · obtain ⟨a', member, failed⟩ := ih h
        exact ⟨a', List.mem_cons_of_mem _ member, failed⟩

end Except
