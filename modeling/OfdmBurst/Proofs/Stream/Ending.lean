import OfdmBurst.Frame.Message
import OfdmBurst.Proofs.Stream.Record

/-!
# The end of a stream

A block that has finished is not called again. So it may say so only when nothing it could still be
fed would make it go on. That is the case when one of its inlets has ended in front of what the
block needs next: from there on nothing arrives at that inlet, and so nothing happens at all.

An inlet that has ended is not enough. What is left in it may wait for the items of another one that
has not ended, and when these come the block goes on.

Both are said once for all blocks. `Running` is what their sessions have in common, `AtRest` says
that nothing will happen, and `Resumes` that something can.

## Main definitions

* `Inlet.Spent`, `Inlet.Stocked`, `Inlet.Waits` — how an inlet stands to the next `n` items
* `Inlet.Admits`, `Inlet.topUp` — what can still arrive at an inlet
* `Running`, `AtRest`, `Resumes` — sessions in which nothing, or something, can still happen

## Main results

* `Inlet.spent_meet` — an inlet that has ended in front of `n` items stays so
* `atRest_of_frozen` — nothing happens if every call of work changes nothing
-/

namespace OfdmBurst

/-! ### Terminals -/

namespace Inlet

variable {α τ : Type} {p q : Inlet α τ} {r s : Record α τ} {n : Nat}

/-- The stream has ended, in front of `n` items. -/
def Spent (p : Inlet α τ) (n : Nat) : Prop := p.closed = true ∧ p.items < n

/-- The stream has ended, with `n` items still to be read. -/
def Stocked (p : Inlet α τ) (n : Nat) : Prop := p.closed = true ∧ n ≤ p.items

/-- The stream goes on, and its next `n` items are not all there. -/
def Waits (p : Inlet α τ) (n : Nat) : Prop := p.closed = false ∧ p.items < n

/-- Nothing is pushed to a stream that has ended. -/
def Admits (p : Inlet α τ) (e : Event α τ) : Prop := p.closed = true → e = .close

theorem stocked_of_not_spent (h : ¬ p.Spent n) (hclosed : p.closed = true) : p.Stocked n :=
  ⟨hclosed, Nat.le_of_not_lt fun hlt => h ⟨hclosed, hlt⟩⟩

theorem waits_of_not_spent (h : ¬ p.Spent n) (hlt : p.items < n) : p.Waits n := by
  refine ⟨?_, hlt⟩
  cases hclosed : p.closed with
  | false => rfl
  | true => exact absurd ⟨hclosed, hlt⟩ h

/-- Two streams of which one has ended, and that do not both have `n` items. One of them has ended
in front of `n` items, or what is left of one waits for the other. -/
theorem spent_or_waits {β : Type} {t : Inlet β τ} (hlt : min p.items t.items < n)
    (hclosed : p.closed = true ∨ t.closed = true) :
    (p.Spent n ∨ t.Spent n) ∨
      ¬ (p.Spent n ∨ t.Spent n) ∧ (p.Stocked n ∧ t.Waits n ∨ t.Stocked n ∧ p.Waits n) := by
  by_cases hspent : p.Spent n ∨ t.Spent n
  · exact .inl hspent
  · refine .inr ⟨hspent, ?_⟩
    rw [not_or] at hspent
    obtain ⟨hp, ht⟩ := hspent
    rcases hclosed with hclosed | hclosed
    · have hstocked := stocked_of_not_spent hp hclosed
      have hle := hstocked.2
      exact .inl ⟨hstocked, waits_of_not_spent ht (by omega)⟩
    · have hstocked := stocked_of_not_spent ht hclosed
      have hle := hstocked.2
      exact .inr ⟨hstocked, waits_of_not_spent hp (by omega)⟩

/-- The reader stays where it is, whatever arrives. -/
theorem read_meet {e : Event α τ} (h : p.meet r e = .ok (q, s)) : q.read = p.read := by
  cases e with
  | close =>
    cases h
    rfl
  | push data tags =>
    simp only [meet] at h
    split at h
    next hpush =>
      cases h
      obtain ⟨-, rfl⟩ := push_eq_ok hpush
      rfl
    · cases h
      rfl
    · cases h

/-- **A stream that has ended in front of `n` items stays so**, as long as nothing is pushed that it
does not admit. -/
theorem spent_meet {start : Inlet α τ} (h : start.Spent n → p.Spent n) {e : Event α τ}
    (he : start.Admits e) (hmeet : p.meet r e = .ok (q, s)) : start.Spent n → q.Spent n := by
  intro hspent
  obtain rfl := he hspent.1
  cases hmeet
  exact ⟨rfl, (h hspent).2⟩

/-- An event after which `n` items are there, unless the stream has ended in front of them. -/
def topUp [Inhabited α] (p : Inlet α τ) (n : Nat) : Event α τ :=
  if p.closed then .close else .push (List.replicate (n * p.width) default) []

theorem admits_topUp [Inhabited α] (p : Inlet α τ) (n : Nat) : p.Admits (p.topUp n) :=
  fun hclosed => if_pos hclosed

theorem meet_topUp [Inhabited α] (h : ¬ p.Spent n) (r : Record α τ) :
    ∃ q s, p.meet r (p.topUp n) = .ok (q, s) ∧ n ≤ q.items ∧
      (s = r ∨ s = r.append p.width (List.replicate (n * p.width) default) []) := by
  cases hclosed : p.closed with
  | true =>
    refine ⟨p.close, r, ?_, (stocked_of_not_spent h hclosed).2, .inl rfl⟩
    rw [topUp, if_pos hclosed]
    rfl
  | false =>
    have hwhole : (List.replicate (n * p.width) (default : α)).length = n * p.width :=
      List.length_replicate
    obtain ⟨q, hpush⟩ : ∃ q, p.push (List.replicate (n * p.width) default) [] = .ok q := by
      simp [push, hwhole]
    refine ⟨q, r.append p.width (List.replicate (n * p.width) default) [], ?_, ?_, .inr rfl⟩
    · rw [topUp, hclosed, if_neg Bool.false_ne_true, Inlet.meet, hpush]
    · obtain ⟨-, rfl⟩ := push_eq_ok hpush
      refine (Nat.le_div_iff_mul_le p.width_pos).2 ?_
      show n * p.width ≤ (p.buffer.append (List.replicate (n * p.width) default)).size
      rw [SizedList.size_eq, SizedList.toList_append, List.length_append, hwhole]
      exact Nat.le_add_left _ _

end Inlet

namespace Outlet

variable {α τ : Type} {p q : Outlet α τ} {r s : Record α τ}

/-- Putting nothing changes nothing. -/
theorem put_attachAll_nil [Inhabited α] (p : Outlet α τ) : (p.attachAll []).put [] = .ok p :=
  put_attachAll_eq_ok_iff.2 ⟨Nat.dvd_zero _, Nat.zero_le _, rfl⟩

/-- A reader changes nothing about how much was written. -/
theorem written_meet {e : Event} (h : p.meet r e = .ok (q, s)) : q.written = p.written := by
  cases e with
  | reserve n =>
    obtain ⟨_, hreserve, hq⟩ := Fault.exists_of_bind_pure h
    obtain ⟨_, -, rfl⟩ := Fault.exists_of_bind_pure hreserve
    cases hq
    rfl
  | take =>
    obtain ⟨⟨⟨data, tags⟩, _⟩, htake, hq⟩ := Fault.exists_of_bind_pure h
    obtain ⟨_, -, hleft⟩ := Fault.exists_of_bind_pure htake
    cases hleft
    cases hq
    show p.written + 0 / p.width = p.written
    rw [Nat.zero_div, Nat.add_zero]

end Outlet

/-! ### Sessions -/

/-- How far a block has come: the items consumed at its inlets, the items produced at its outlets,
and the messages handed on. -/
structure Progress where
  consumed : List Nat
  produced : List Nat
  messages : List Message := []

/-- What the sessions of all blocks have in common. -/
class Running (S : Type) (E : outParam Type) where
  act : S → E → Except Fault S
  /-- Nothing is pushed to an inlet that has ended. -/
  admits : S → E → Prop
  /-- The event is a call of work. -/
  calls : E → Prop
  progress : S → Progress
  /-- An inlet that has ended is short of what the block needs next. -/
  exhausted : S → Prop
  /-- An inlet that has not ended is short of it, and what is left at another one waits. -/
  starved : S → Prop
  /-- There is room, and nothing but missing items keeps the block from going on. -/
  able : S → Prop

section Sessions

variable {S E : Type} [Running S E]

open Running

/-- **Nothing more will happen.** Whatever is pushed to the inlets that have not ended, and however
room is granted and work is called, nothing is consumed, produced or handed on, and every call of
work returns and leaves all as it was. -/
def AtRest (s : S) : Prop :=
  ∀ (later : List E) (t : S), (∀ e ∈ later, admits s e) → later.foldlM act s = .ok t →
    progress t = progress s ∧ ∀ e, calls S e → act t e = .ok t

/-- **Something more can happen**, though nothing is pushed to the inlets that have ended. -/
def Resumes (s : S) : Prop :=
  ∃ (later : List E) (t : S), (∀ e ∈ later, admits s e) ∧ later.foldlM act s = .ok t ∧
    progress t ≠ progress s

/-- A run that consumes something, as a check that can be run. -/
theorem resumes_of_any {s : S} (later : List E) (hadmits : ∀ e ∈ later, admits s e)
    (h : (later.foldlM act s).toOption.any fun t =>
      (progress t).consumed != (progress s).consumed) : Resumes s := by
  obtain ⟨t, hrun, hne⟩ := Fault.exists_ok_of_any h
  refine ⟨later, t, hadmits, hrun, fun hsame => ?_⟩
  rw [hsame, bne_self_eq_false] at hne
  cases hne

/-- **Nothing happens if a call of work changes nothing**, in a session as it is now and as it can
become by other events. -/
theorem atRest_of_frozen {P : S → Prop} {s : S} (hs : P s)
    (event : ∀ t u e, P t → ¬ calls S e → admits s e → act t e = .ok u →
      P u ∧ progress u = progress t)
    (work : ∀ t e, P t → calls S e → act t e = .ok t) : AtRest s := by
  intro later t hadmits hrun
  have hkept : P t ∧ progress t = progress s := by
    refine Fault.foldlM_induct_of_mem (P := fun t => P t ∧ progress t = progress s)
      ?_ ⟨hs, rfl⟩ hrun
    rintro t e u he ⟨ht, hsame⟩ hact
    by_cases hcall : calls S e
    · rw [work t e ht hcall] at hact
      cases hact
      exact ⟨ht, hsame⟩
    · obtain ⟨ht', hsame'⟩ := event t u e ht hcall (hadmits e he) hact
      exact ⟨ht', hsame'.trans hsame⟩
  exact ⟨hkept.2, fun e hcall => work t e hkept.1 hcall⟩

end Sessions

end OfdmBurst
