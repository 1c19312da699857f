import FlexPS.Lib.Except

/-! # Untagged codecs

A writer appends to a stream and a reader takes from its front. Nothing in the
stream says where an item ends, so a reader has to take exactly the code that
its writer appended, whatever follows. Both properties compose along `>>=` and
along loops.
-/

namespace Codec

variable {S ε α γ σ β : Type}

/-- `acc = body(acc)`, as many times as the counter says. -/
def loop {m : Type → Type} [Monad m] (body : σ → m σ) : Nat → σ → m σ
  | 0, acc => pure acc
  | n + 1, acc => do loop body n (← body acc)

/-! ## Writers -/

section Writers

/-- The writer returns, and all it does is to append `code`. -/
def Emits (append : S → List β → S) (write : StateT S (Except ε) Unit) (code : List β) : Prop :=
  ∀ s, write.run s = .ok ((), append s code)

variable {append : S → List β → S} (append_nil : ∀ s, append s [] = s)
  (append_append : ∀ s a b, append (append s a) b = append s (a ++ b))

include append_nil in
theorem Emits.pure : Emits append (pure () : StateT S (Except ε) Unit) [] := fun s => by
  simp only [StateT.run_pure, Except.pure_eq_ok, append_nil]

include append_append in
theorem Emits.bind {write next : StateT S (Except ε) Unit} {code code' : List β}
    (first : Emits append write code) (second : Emits append next code') :
    Emits append (do write; next) (code ++ code') := fun s => by
  simp only [StateT.run_bind, first s, Except.ok_bind, second (append s code), append_append]

include append_nil append_append in
theorem Emits.forM {write : α → StateT S (Except ε) Unit} {code : α → List β} {items : List α}
    (each : ∀ x ∈ items, Emits append (write x) (code x)) :
    Emits append (forM items write) (items.flatMap code) := by
  induction items with
  | nil => exact Emits.pure append_nil
  | cons x items ih =>
      rw [List.forM_cons, List.flatMap_cons]
      exact Emits.bind append_append (each x List.mem_cons_self)
        (ih fun y member => each y (List.mem_cons_of_mem _ member))

end Writers

/-! ## Readers -/

/-- On any stream that starts with `code` the reader takes exactly `code`, and what it
returns has the property `P`. -/
def Consumes (unread : S → List β) (read : StateT S (Except ε) α) (code : List β)
    (P : α → Prop) : Prop :=
  ∀ s rest, unread s = code ++ rest → ∃ a s', read.run s = .ok (a, s') ∧ P a ∧ unread s' = rest

namespace Consumes

variable {unread : S → List β} {P : α → Prop} {Q : γ → Prop} {code code' : List β}

theorem pure {a : α} (h : P a) : Consumes unread (pure a : StateT S (Except ε) α) [] P :=
  fun s _ starts => ⟨a, s, rfl, h, starts⟩

theorem bind {read : StateT S (Except ε) α} {next : α → StateT S (Except ε) γ}
    (first : Consumes unread read code P) (second : ∀ a, P a → Consumes unread (next a) code' Q) :
    Consumes unread (read >>= next) (code ++ code') Q := by
  intro s rest starts
  obtain ⟨a, s', ran, holds, starts⟩ := first s (code' ++ rest) (by rw [starts, List.append_assoc])
  obtain ⟨c, s'', ran', result⟩ := second a holds s' rest starts
  exact ⟨c, s'', by simp only [StateT.run_bind, ran, Except.ok_bind, ran'], result⟩

/-- A last step that reads nothing. -/
theorem map {read : StateT S (Except ε) α} {f : α → γ} (first : Consumes unread read code P)
    (imp : ∀ a, P a → Q (f a)) :
    Consumes unread (do let a ← read; Pure.pure (f a)) code Q := by
  simpa only [List.append_nil] using first.bind fun a holds => Consumes.pure (imp a holds)

/-- The loop rule. `Inv done acc` relates the items read so far to the accumulator; one
round has to read the code of the next item. -/
theorem loop {body : σ → StateT S (Except ε) σ} {code : α → List β} {items : List α}
    {Inv : List α → σ → Prop} {init : σ} (start : Inv [] init)
    (step : ∀ done x rest acc, items = done ++ x :: rest → Inv done acc →
      Consumes unread (body acc) (code x) (Inv (done ++ [x]))) :
    Consumes unread (Codec.loop body items.length init) (items.flatMap code) (Inv items) := by
  suffices h : ∀ rest done acc, items = done ++ rest → Inv done acc →
      Consumes unread (Codec.loop body rest.length acc) (rest.flatMap code) (Inv items) from
    h items [] init rfl start
  intro rest
  induction rest with
  | nil =>
      intro done acc split inv
      rw [List.append_nil] at split
      exact Consumes.pure (split ▸ inv)
  | cons x rest ih =>
      intro done acc split inv
      rw [List.flatMap_cons]
      exact (step done x rest acc split inv).bind fun acc' inv' =>
        ih (done ++ [x]) acc' (by rw [split, List.append_assoc, List.singleton_append]) inv'

end Consumes

/-! ## Round trips -/

/-- The reader takes what the writer of `x` appends and returns a value related to `x`. -/
def RoundTrip (append : S → List β → S) (unread : S → List β) (write : StateT S (Except ε) Unit)
    (read : StateT S (Except ε) α) (P : α → Prop) : Prop :=
  ∃ code, Emits append write code ∧ Consumes unread read code P

variable {append : S → List β → S} {unread : S → List β}

theorem RoundTrip.bind (append_append : ∀ s a b, append (append s a) b = append s (a ++ b))
    {write next : StateT S (Except ε) Unit} {read : StateT S (Except ε) α}
    {readNext : α → StateT S (Except ε) γ} {P : α → Prop} {Q : γ → Prop}
    (first : RoundTrip append unread write read P) (second : ∃ code, Emits append next code ∧
      ∀ a, P a → Consumes unread (readNext a) code Q) :
    RoundTrip append unread (do write; next) (read >>= readNext) Q :=
  let ⟨code, emits, consumes⟩ := first
  let ⟨code', emits', consumes'⟩ := second
  ⟨code ++ code', emits.bind append_append emits', consumes.bind consumes'⟩

/-- Items written one after the other and read by a loop. -/
theorem RoundTrip.loop (append_nil : ∀ s, append s [] = s)
    (append_append : ∀ s a b, append (append s a) b = append s (a ++ b))
    {write : α → StateT S (Except ε) Unit} {read : StateT S (Except ε) γ} {Same : α → γ → Prop}
    {next : σ → γ → σ} {items : List α} {Inv : List α → σ → Prop} {init : σ}
    (each : ∀ x ∈ items, RoundTrip append unread (write x) read (Same x)) (start : Inv [] init)
    (step : ∀ done x rest acc y, items = done ++ x :: rest → Inv done acc → Same x y →
      Inv (done ++ [x]) (next acc y)) :
    RoundTrip append unread (forM items write)
      (Codec.loop (fun acc => do let y ← read; pure (next acc y)) items.length init) (Inv items) := by
  choose! code emits consumes using each
  refine ⟨items.flatMap code, .forM append_nil append_append emits, .loop start ?_⟩
  intro done x rest acc split inv
  have member : x ∈ items := split ▸ List.mem_append_right done List.mem_cons_self
  exact (consumes x member).map fun y same => step done x rest acc y split inv same

end Codec
