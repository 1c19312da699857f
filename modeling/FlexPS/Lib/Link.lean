import FlexPS.Lib.Rounds

/-! # FIFO links

A reliable FIFO link between two parties, as what has arrived and what is still
on its way. What was sent is the one followed by the other.
-/

/-- A reliable FIFO link. -/
structure Link (α : Type) where
  arrived : List α
  inFlight : List α
  deriving DecidableEq, Repr

namespace Link

variable {α : Type}

def empty : Link α := ⟨[], []⟩

def sent (link : Link α) : List α := link.arrived ++ link.inFlight

def send (link : Link α) (a : α) : Link α := { link with inFlight := link.inFlight ++ [a] }

/-- The first message on its way arrives. -/
def receive (link : Link α) : Link α :=
  ⟨link.arrived ++ link.inFlight.take 1, link.inFlight.drop 1⟩

@[simp] theorem sent_empty : (empty : Link α).sent = [] := rfl

@[simp] theorem sent_send (link : Link α) (a : α) : (link.send a).sent = link.sent ++ [a] :=
  (List.append_assoc ..).symm

@[simp] theorem sent_receive (link : Link α) : link.receive.sent = link.sent := by
  simp only [sent, receive, List.append_assoc, List.take_append_drop]

theorem receive_eq {link : Link α} {a : α} {rest : List α} (next : link.inFlight = a :: rest) :
    link.receive = ⟨link.arrived ++ [a], rest⟩ := by
  simp [receive, next]

/-- FIFO: when more messages of a kind have arrived than were sent early, everything that
    was sent early has arrived. -/
theorem early_arrived {link : Link α} {early late : List α} (split : link.sent = early ++ late)
    (p : α → Bool) (more : early.countP p < link.arrived.countP p) : early <+: link.arrived := by
  have early_sent : early <+: link.sent := split ▸ List.prefix_append early late
  have arrived_sent : link.arrived <+: link.sent := List.prefix_append _ _
  cases List.prefix_or_prefix_of_prefix early_sent arrived_sent with
  | inl done => exact done
  | inr behind =>
      have := behind.sublist.countP_le (p := p)
      omega

end Link

/-! ## Links between all pairs of parties -/

namespace Link

variable {ι α : Type} [DecidableEq ι]

/-- Replaces the link from `i` to `j`. -/
def set (links : ι → ι → Link α) (i j : ι) (link : Link α) : ι → ι → Link α :=
  Function.update links i (Function.update (links i) j link)

theorem set_apply (links : ι → ι → Link α) (i j : ι) (link : Link α) (k l : ι) :
    set links i j link k l = if k = i ∧ l = j then link else links k l := by
  cases decEq k i with
  | isTrue same => subst same; simp [set, Function.update_apply]
  | isFalse other => simp [set, other]

@[simp] theorem set_same (links : ι → ι → Link α) (i j : ι) (link : Link α) :
    set links i j link i j = link := by simp [set_apply]

/-- How many packets of a kind are on their way, after one link changed. -/
theorem countP_set (p : α → Bool) (links : ι → ι → Link α) (i j : ι) (link : Link α) :
    (fun k l => (set links i j link k l).inFlight.countP p) =
      Function.update (fun k l => (links k l).inFlight.countP p) i
        (Function.update (fun l => (links i l).inFlight.countP p) j (link.inFlight.countP p)) := by
  funext k l
  rw [set_apply]
  cases decEq k i with
  | isFalse other => simp [other]
  | isTrue same =>
      subst same
      rw [Function.update_self, Function.update_apply]
      simp only [true_and]
      split <;> rfl

/-- A sum over the links to `l` after one link changed. -/
theorem sum_set [Fintype ι] {M : Type} [AddCommMonoid M] (g : Link α → M)
    (links : ι → ι → Link α) (i j : ι) (link : Link α) (l : ι) :
    ∑ k, g (set links i j link k l) + (if l = j then g (links i j) else 0) =
      ∑ k, g (links k l) + if l = j then g link else 0 := by
  cases decEq l j with
  | isTrue same =>
      subst same
      have column : ∀ k, set links i l link k l =
          Function.update (fun k => links k l) i link k := by
        intro k
        simp only [set_apply, and_true, Function.update_apply]
      simp only [column, if_true]
      exact Rounds.sum_update g (fun k => links k l) i link
  | isFalse other => simp only [set_apply, other, and_false, if_false]

/-- Every item that `i` sends enters the link to its receiver. -/
def post (links : ι → ι → Link α) (i : ι) (receiver : α → ι) (items : List α) : ι → ι → Link α :=
  fun k l =>
    if k = i then
      { links k l with inFlight := (links k l).inFlight ++ items.filter fun a => receiver a = l }
    else links k l

theorem post_self (links : ι → ι → Link α) (i : ι) (receiver : α → ι) (items : List α) (l : ι) :
    post links i receiver items i l =
      { links i l with inFlight := (links i l).inFlight ++ items.filter fun a => receiver a = l } :=
  if_pos rfl

theorem post_of_ne {links : ι → ι → Link α} {i k : ι} (other : k ≠ i) (receiver : α → ι) (items : List α)
    (l : ι) : post links i receiver items k l = links k l :=
  if_neg other

@[simp] theorem arrived_post (links : ι → ι → Link α) (i : ι) (receiver : α → ι) (items : List α) (k l : ι) :
    (post links i receiver items k l).arrived = (links k l).arrived := by
  unfold post
  split <;> rfl

theorem sent_post (links : ι → ι → Link α) (i : ι) (receiver : α → ι) (items : List α) (l : ι) :
    (post links i receiver items i l).sent = (links i l).sent ++ items.filter fun a => receiver a = l := by
  rw [post_self, sent, sent, List.append_assoc]

end Link
