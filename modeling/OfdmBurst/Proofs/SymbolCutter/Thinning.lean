import OfdmBurst.Proofs.SymbolCutter.Emission

/-!
# Running without some of the tags

To say that a tag makes no difference is to compare two runs: one as it is, and one for which the
tag was taken out of what is pushed. This module runs the second beside the first. Thinning keeps
the tags of the samples that pass a test, and it is applied to the terminal, to its record, and to
the pieces that are still to be pushed, always with the tags at their index of the stream.

A look at thinned samples finds the same triggers and cuts out the same symbols. It differs only by
what it notes. So a look that notes the same is mirrored (`Step.thin`), and with it calls of work
and the whole run.

## Main definitions

* `Inlet.thin`, `Record.thin`, `SymbolCutter.thin`, `Session.thin` — without the tags that fail a
  test
* `thinned` — events without them
* `SymbolCutter.Indifferent` — the look that is due notes the same

## Main results

* `Step.thin` — a look that notes the same
* `drain_thin` — a call of work
* `Session.act_thin` — an event
-/

namespace OfdmBurst

variable {α τ : Type} (keep : Tag τ → Bool)

/-! ### Terminals -/

/-- A record without the tags that fail the test. -/
def Record.thin (r : Record α τ) : Record α τ := { r with tags := r.tags.filter keep }

/-- An inlet without the tags that fail the test. -/
def Inlet.thin (p : Inlet α τ) : Inlet α τ := { p with tags := p.tags.filter keep }

/-- What is pushed behind `pushed` items, without the tags that fail the test there. -/
def Inlet.Event.thin (pushed : Nat) : Inlet.Event α τ → Inlet.Event α τ
  | .push data tags => .push data (tags.filter fun t => keep (t.later pushed))
  | .close => .close

/-- How many scalars are pushed. -/
def Inlet.Event.length : Inlet.Event α τ → Nat
  | .push data _ => data.length
  | .close => 0

theorem filter_later_thin (tags : List (Tag τ)) (offset : Nat) :
    (tags.map (·.later offset)).filter keep =
      (tags.filter fun t => keep (t.later offset)).map (·.later offset) := by
  rw [List.filter_map]
  rfl

theorem Record.thin_append (r : Record α τ) (width : Nat) (data : List α) (tags : List (Tag τ)) :
    (r.append width data tags).thin keep =
      (r.thin keep).append width data
        (tags.filter fun t => keep (t.later (r.data.length / width))) := by
  rw [append, thin, List.filter_append, filter_later_thin]
  rfl

namespace Inlet

variable {keep} {p q : Inlet α τ}

theorem thin_consume {n : Nat} (h : p.consume n = .ok q) :
    (p.thin keep).consume n = .ok (q.thin keep) := by
  rw [consume] at h ⊢
  split at h
  next hzero =>
    cases h
    exact if_pos hzero
  next hzero =>
    split at h
    next hle =>
      cases h
      rw [if_neg hzero, if_pos (show n ≤ (p.thin keep).items from hle)]
      simp only [thin, Tag.since_eq_filter, List.filter_filter, Bool.and_comm]
    · cases h

theorem thin_push {data : List α} {tags : List (Tag τ)} (h : p.push data tags = .ok q) :
    (p.thin keep).push data (tags.filter fun t => keep (t.later (p.read + p.items))) =
      .ok (q.thin keep) := by
  simp only [push] at h
  split at h
  · cases h
  next hwhole =>
    split at h
    next hfits =>
      cases h
      have hkept : (tags.filter fun t => keep (t.later (p.read + p.items))).all
          (fun t => t.index + (p.read + p.items) < wordLimit) = true := by
        rw [List.all_eq_true] at hfits ⊢
        intro t ht
        exact hfits t (List.mem_filter.1 ht).1
      refine (if_neg hwhole).trans ((if_pos hkept).trans ?_)
      simp only [thin, List.filter_append, filter_later_thin]
      rfl
    · cases h

/-- What happens to an inlet happens to the thinned inlet. -/
theorem thin_meet {r s : Record α τ} (hholds : p.Holds r) {e : Event α τ}
    (h : p.meet r e = .ok (q, s)) :
    (p.thin keep).meet (r.thin keep) (e.thin keep (r.data.length / p.width)) =
      .ok (q.thin keep, s.thin keep) := by
  cases e with
  | close =>
    cases h
    rfl
  | push data tags =>
    have hplace : p.read + p.items = r.data.length / p.width := by
      rw [hholds.items_eq]
      exact Nat.add_sub_cancel' hholds.read_le_items
    by_cases hwhole : data.length % p.width = 0
    · rw [meet] at h
      cases hpush : p.push data tags with
      | ok q' =>
        rw [hpush] at h
        cases h
        have hthin : (p.thin keep).push data (tags.filter fun t => keep (t.later _)) =
            .ok (q.thin keep) := thin_push hpush
        rw [hplace] at hthin
        rw [Event.thin, meet, hthin, Record.thin_append]
        rfl
      | error fault =>
        rw [hpush] at h
        cases fault with
        | terminal cause =>
          simp only [push, hwhole, ne_eq, not_true_eq_false, ↓reduceIte] at hpush
          split at hpush <;> cases hpush
        | _ => cases h
    · -- a piece that is not made of whole items is refused, with tags or without
      have hrefused : ∀ tags, p.push data tags =
          .error (.terminal (.partialItem data.length p.width)) := fun _ => if_pos hwhole
      have hrefusedThin : ∀ tags, (p.thin keep).push data tags =
          .error (.terminal (.partialItem data.length p.width)) := fun _ => if_pos hwhole
      rw [meet, hrefused] at h
      cases h
      rw [Event.thin, meet, hrefusedThin]

/-- An inlet of single scalars takes every piece whole. -/
theorem length_meet {r s : Record α τ} (hwidth : p.width = 1) {e : Event α τ}
    (h : p.meet r e = .ok (q, s)) : s.data.length = r.data.length + e.length := by
  cases e with
  | close =>
    cases h
    rfl
  | push data tags =>
    rw [meet] at h
    cases hpush : p.push data tags with
    | ok q' =>
      rw [hpush] at h
      cases h
      exact List.length_append
    | error fault =>
      rw [hpush] at h
      simp only [push, hwidth, Nat.mod_one, ne_eq, not_true_eq_false, ↓reduceIte] at hpush
      split at hpush <;> cases hpush
      cases h

end Inlet

/-! ### Cutters -/

namespace SymbolCutter

/-- A cutter whose samples are without the tags that fail the test. -/
def thin (c : SymbolCutter α τ) : SymbolCutter α τ := { c with samples := c.samples.thin keep }

/-- The place up to which the look that is due notes tags. -/
def due (c : SymbolCutter α τ) : Nat :=
  c.samples.read + c.trigger?.elim c.window fun k => c.options.fft + k + 1

/-- The look that is due notes the same without the tags that fail the test. -/
def Indifferent (c : SymbolCutter α τ) : Prop :=
  ∀ d, c.observe c.due = .ok d → (c.thin keep).observe c.due = .ok (d.thin keep)

theorem due_of_some {c : SymbolCutter α τ} {k : Nat} (found : c.trigger? = some k) :
    c.due = c.samples.read + (c.options.fft + k + 1) := by
  rw [due, found, Option.elim_some]

theorem due_of_none {c : SymbolCutter α τ} (found : c.trigger? = none) :
    c.due = c.samples.read + c.window := by
  rw [due, found, Option.elim_none]

variable {keep} [Inhabited α] [Rounded τ]

omit keep in
/-- Every look notes the tags up to where it is due, and keeps what it noted. -/
theorem Step.observed {c d : SymbolCutter α τ} {source : String} {used : Nat}
    (h : Step c source d used) :
    ∃ e, c.observe c.due = .ok e ∧ d.anchor = e.anchor ∧ d.seen = e.seen := by
  cases h with
  | burst found observed =>
    rw [← due_of_some found] at observed
    exact ⟨_, observed, rfl, rfl⟩
  | follow found framed observed =>
    rw [← due_of_none found] at observed
    exact ⟨_, observed, rfl, rfl⟩
  | pass found searching observed =>
    rw [← due_of_none found] at observed
    exact ⟨_, observed, rfl, rfl⟩

omit keep in
/-- A look fails exactly if the tags up to where it is due cannot be noted. -/
theorem step_failed_iff {c : SymbolCutter α τ} {source : String} {cause : FramingError} :
    c.step source = .ok (.failed cause) ↔ c.observe c.due = .error cause := by
  constructor
  · intro h
    simp only [step] at h
    split at h
    next hfailed =>
      cases h
      exact hfailed
    next e hobserve =>
      split at h <;> simp only [Fault.bind_eq_ok_iff, Fault.pure_eq_ok_iff] at h
      · obtain ⟨_, -, _, -, _, -, h⟩ := h
        cases h
      · obtain ⟨_, -, _, -, h⟩ := h
        cases h
      · obtain ⟨_, -, h⟩ := h
        cases h
  · intro h
    rw [due] at h
    simp only [step, h]

/-- **A look that notes the same is the same look.** -/
theorem Step.thin {c d : SymbolCutter α τ} {source : String} {used : Nat}
    (h : Step c source d used) (hsame : c.Indifferent keep) :
    Step (c.thin keep) source (d.thin keep) used := by
  cases h with
  | burst found observed fits timed symbol flag sampled triggered =>
    rw [← due_of_some found] at observed
    have hobserved := hsame _ observed
    rw [due_of_some found] at hobserved
    exact .burst found hobserved fits timed symbol flag (Inlet.thin_consume sampled) triggered
  | follow found framed observed symbol flag sampled triggered =>
    rw [← due_of_none found] at observed
    have hobserved := hsame _ observed
    rw [due_of_none found] at hobserved
    exact .follow found framed hobserved symbol flag (Inlet.thin_consume sampled) triggered
  | pass found searching observed sampled triggered =>
    rw [← due_of_none found] at observed
    have hobserved := hsame _ observed
    rw [due_of_none found] at hobserved
    exact .pass found searching hobserved (Inlet.thin_consume sampled) triggered

variable (keep) in
/-- **A call of work whose looks note the same is the same call**, if no look of it fails. -/
theorem drain_thin {P : SymbolCutter α τ → Prop} {source : String} {queue : MessageQueue}
    (look : ∀ c d used, P c → c.Ready → Step c source d used → P d)
    (same : ∀ c, P c → c.Ready → c.Indifferent keep)
    (moves : ∀ c cause, P c → c.Ready → c.step source ≠ .ok (.failed cause))
    {n : Nat} {c : SymbolCutter α τ} {turn : Turn (SymbolCutter α τ)} (hn : n = c.available)
    (hc : P c) (h : c.drain source queue n = .ok turn) :
    (c.thin keep).drain source queue n = .ok { turn with block := turn.block.thin keep } := by
  induction n using Nat.strongRecOn generalizing c with
  | ind n ih =>
    rw [drain] at h ⊢
    split at h
    next hwindow =>
      cases h
      exact dif_pos hwindow
    next hwindow =>
      refine (dif_neg hwindow).trans ?_
      split at h
      next hroom =>
        cases h
        exact if_pos hroom
      next hroom =>
        refine (if_neg hroom).trans ?_
        have hready : c.Ready := by
          rw [not_or] at hroom
          exact ⟨by omega, hroom⟩
        split at h
        · cases h
        next cause hstep => exact absurd hstep (moves c cause hc hready)
        next d used hstep =>
          have hmoved := step_cases hstep
          have hpos := used.property
          have hwin : 0 < c.window := Nat.succ_pos _
          obtain ⟨_, hthin⟩ := (hmoved.thin (same c hc hready)).step_eq
          rw [hthin]
          refine ih (n - used.val) (by omega) ?_ (look c d used.val hc hready hmoved) h
          rw [hmoved.available_eq, hn]

/-! ### Sessions -/

/-- An event without the tags that fail the test, if it pushes samples behind `pushed` others. -/
def Event.thin (keep : Tag τ → Bool) (pushed : Nat) : Event α τ → Event α τ
  | .samples e => .samples (e.thin keep pushed)
  | e => e

/-- How many samples are pushed. -/
def Event.length : Event α τ → Nat
  | .samples e => e.length
  | _ => 0

/-- Events without the tags that fail the test, where `pushed` samples were pushed before. -/
def thinned (keep : Tag τ → Bool) : (pushed : Nat) → List (Event α τ) → List (Event α τ)
  | _, [] => []
  | pushed, e :: rest => e.thin keep pushed :: thinned keep (pushed + e.length) rest

namespace Session

/-- A session whose samples are without the tags that fail the test. -/
def thin (keep : Tag τ → Bool) (s : Session α τ) : Session α τ :=
  { s with cutter := s.cutter.thin keep, samples := s.samples.thin keep }

theorem length_act {s t : Session α τ} (hwidth : s.cutter.samples.width = 1) {e : Event α τ}
    (h : s.act e = .ok t) : t.samples.data.length = s.samples.data.length + e.length := by
  cases e with
  | samples e =>
    obtain ⟨⟨p, r⟩, hmeet, rfl⟩ := Fault.exists_of_bind_pure h
    exact Inlet.length_meet hwidth hmeet
  | triggers e =>
    obtain ⟨⟨p, r⟩, -, rfl⟩ := Fault.exists_of_bind_pure h
    rfl
  | symbols e =>
    obtain ⟨⟨p, r⟩, -, rfl⟩ := Fault.exists_of_bind_pure h
    rfl
  | flags e =>
    obtain ⟨⟨p, r⟩, -, rfl⟩ := Fault.exists_of_bind_pure h
    rfl
  | work source =>
    obtain ⟨turn, -, rfl⟩ := Fault.exists_of_bind_pure h
    rfl

variable (keep) in
/-- **An event is the same event**, if the looks of a call of work note the same and none fails. -/
theorem act_thin {P : SymbolCutter α τ → Prop}
    (look : ∀ c source d used, P c → c.Ready → Step c source d used → P d)
    (same : ∀ c, P c → c.Ready → c.Indifferent keep)
    (moves : ∀ c source cause, P c → c.Ready → c.step source ≠ .ok (.failed cause))
    {s t : Session α τ} (hholds : s.cutter.samples.Holds s.samples) (hc : P s.cutter)
    {e : Event α τ} (h : s.act e = .ok t) :
    (s.thin keep).act (e.thin keep (s.samples.data.length / s.cutter.samples.width)) =
      .ok (t.thin keep) := by
  cases e with
  | samples e =>
    obtain ⟨⟨p, r⟩, hmeet, rfl⟩ := Fault.exists_of_bind_pure h
    exact Fault.bind_eq_ok_iff.2 ⟨_, Inlet.thin_meet hholds hmeet, rfl⟩
  | triggers e =>
    obtain ⟨⟨p, r⟩, hmeet, rfl⟩ := Fault.exists_of_bind_pure h
    exact Fault.bind_eq_ok_iff.2 ⟨_, hmeet, rfl⟩
  | symbols e =>
    obtain ⟨⟨p, r⟩, hmeet, rfl⟩ := Fault.exists_of_bind_pure h
    exact Fault.bind_eq_ok_iff.2 ⟨_, hmeet, rfl⟩
  | flags e =>
    obtain ⟨⟨p, r⟩, hmeet, rfl⟩ := Fault.exists_of_bind_pure h
    exact Fault.bind_eq_ok_iff.2 ⟨_, hmeet, rfl⟩
  | work source =>
    obtain ⟨turn, hwork, rfl⟩ := Fault.exists_of_bind_pure h
    obtain ⟨word, hword, hdrain⟩ := Fault.bind_eq_ok_iff.1 hwork
    have hthin := drain_thin keep (fun c => look c source) same
      (fun c => moves c source) rfl hc hdrain
    exact Fault.bind_eq_ok_iff.2 ⟨_, Fault.bind_eq_ok_iff.2 ⟨word, hword, hthin⟩, rfl⟩

end Session

end SymbolCutter

end OfdmBurst
