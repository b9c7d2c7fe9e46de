import OfdmBurst.Proofs.SymbolCutter.Timing

/-!
# Whole frames

The segmentation is about all triggers and all symbols that follow them. This module asks what is
left of it for a cutter that has run dry, when it is known beforehand how many symbols each trigger
has to be followed by. `Frames` lists the triggers with these numbers and says that they fit: the
symbols of a frame end in front of the next trigger and in front of the end of the stream.

A cutter that has run dry has less than a window in front of it. By then every trigger was found and
every symbol of every frame was emitted. What it may hold back are symbols behind those of the last
frame, and what it may have emitted in addition are symbols between frames. None of them is flagged.

## Main definitions

* `Frames`, `frame` — triggers with the symbols that follow them

## Main results

* `trigger_mem_segments`, `follower_mem_segments` — what the segments are
* `Session.Sound.held_back` — what a cutter that has run dry holds back
* `Session.Sound.ahead_of_dry` — the same, if no trigger is near the end
* `Session.Sound.frames_of_dry` — what it has emitted
-/

namespace OfdmBurst

namespace SymbolCutter

variable {α τ : Type} {o : CutterOptions τ}

/-- The segments of a frame: one that ends at the trigger, and `n` behind it. -/
def frame (symbol : Nat) (p : Nat × Nat) : List Segment :=
  ⟨p.1, 1⟩ :: (List.range' 1 p.2).map fun j => ⟨p.1 + j * symbol, 0⟩

/-- Triggers, each with the number of symbols that follow it. The timeout lets that many follow, and
they end more than a sample in front of the next trigger and of `stop`. -/
def Frames (o : CutterOptions τ) (stop : Nat) : List (Nat × Nat) → Prop
  | [] => True
  | p :: rest =>
    p.2 ≤ o.timeout ∧ p.1 + p.2 * o.symbol + 1 < stop ∧
      (∀ q ∈ rest.head?, p.1 + p.2 * o.symbol + 1 < q.1) ∧ Frames o stop rest

theorem Frames.lt {stop : Nat} {ps : List (Nat × Nat)} (h : Frames o stop ps) :
    ∀ p ∈ ps, p.1 + p.2 * o.symbol + 1 < stop := by
  induction ps with
  | nil => nofun
  | cons p rest ih =>
    intro q hq
    rcases List.mem_cons.1 hq with rfl | hq
    · exact h.2.1
    · exact ih h.2.2.2 q hq

theorem mem_frame {symbol : Nat} {p : Nat × Nat} {e : Segment} (h : e ∈ frame symbol p) :
    e.flag = 1 ∨ e.last ≤ p.1 + p.2 * symbol := by
  rcases List.mem_cons.1 h with rfl | h
  · exact .inl rfl
  · obtain ⟨j, hj, rfl⟩ := List.mem_map.1 h
    rw [List.mem_range'_1] at hj
    exact .inr (Nat.add_le_add_left (Nat.mul_le_mul_right symbol (by omega)) _)

/-! ### Followers -/

/-- Followers that fit in front of the next trigger are the first ones. -/
theorem followers_of_fits (symbol last : Nat) (next : Option Nat) {n m : Nat} (hn : n ≤ m)
    (hnext : ∀ t ∈ next, last + n * symbol + 1 < t) :
    ∃ extra, followers symbol last m next =
        ((List.range' 1 n).map fun j => (⟨last + j * symbol, 0⟩ : Segment)) ++ extra ∧
      ∀ e ∈ extra, e.flag = 0 := by
  obtain ⟨k, rfl⟩ := Nat.exists_eq_add_of_le hn
  have hfits : ∀ j ∈ List.range' 1 n,
      (next.all fun t => decide (last + j * symbol + 1 < t)) = true := by
    intro j hj
    rw [List.mem_range'_1] at hj
    have hmul : j * symbol ≤ n * symbol := Nat.mul_le_mul_right symbol (by omega)
    cases next with
    | none => rfl
    | some t =>
      have hlt := hnext t rfl
      rw [Option.all_some, decide_eq_true_iff]
      omega
  have hsplit : List.range' 1 (n + k) = List.range' 1 n ++ List.range' (1 + n) k := by
    rw [← List.range'_append_1]
  have hfollowers : followers symbol last (n + k) next =
      ((List.range' 1 n).map fun j => (⟨last + j * symbol, 0⟩ : Segment)) ++
        ((List.range' (1 + n) k).takeWhile fun j =>
          next.all fun t => decide (last + j * symbol + 1 < t)).map
            fun j => ⟨last + j * symbol, 0⟩ := by
    rw [followers, hsplit, List.takeWhile_append_of_pos hfits, List.map_append]
  refine ⟨_, hfollowers, fun e he => ?_⟩
  obtain ⟨j, -, rfl⟩ := List.mem_map.1 he
  rfl

/-! ### Triggers and what follows them -/

/-- Every trigger has its segment. -/
theorem trigger_mem_segments {ts : List Nat} {t : Nat} (h : t ∈ ts) : ⟨t, 1⟩ ∈ segments o ts := by
  induction ts with
  | nil => cases h
  | cons u later ih =>
    rcases List.mem_cons.1 h with rfl | h
    · exact List.mem_cons_self
    · exact List.mem_cons_of_mem _ (List.mem_append_right _ (ih h))

/-- Every symbol that the timeout lets follow a trigger has its segment, if it ends more than a
sample in front of all later triggers. -/
theorem follower_mem_segments {ts : List Nat} (hsorted : ts.Pairwise (· < ·)) {t j : Nat}
    (h : t ∈ ts) (hpos : 1 ≤ j) (hj : j ≤ o.timeout)
    (hclear : ∀ u ∈ ts, t < u → t + j * o.symbol + 1 < u) :
    ⟨t + j * o.symbol, 0⟩ ∈ segments o ts := by
  induction ts with
  | nil => cases h
  | cons u later ih =>
    obtain ⟨hfirst, hlater⟩ := List.pairwise_cons.1 hsorted
    rcases List.mem_cons.1 h with rfl | h
    · obtain ⟨extra, hfollowers, -⟩ := followers_of_fits o.symbol t later.head? hj fun u hu =>
        hclear u (List.mem_cons_of_mem t (List.mem_of_mem_head? hu))
          (hfirst u (List.mem_of_mem_head? hu))
      have hmem : (⟨t + j * o.symbol, 0⟩ : Segment) ∈
          followers o.symbol t o.timeout later.head? := by
        rw [hfollowers]
        exact List.mem_append_left _
          (List.mem_map.2 ⟨j, List.mem_range'_1.2 ⟨hpos, by omega⟩, rfl⟩)
      exact List.mem_cons_of_mem _ (List.mem_append_left _ hmem)
    · exact List.mem_cons_of_mem _ (List.mem_append_right _
        (ih hlater h fun v hv => hclear v (List.mem_cons_of_mem u hv)))

/-! ### Frames of a segmentation -/

/-- What was emitted of a front that holds nothing of what is ahead is at least the front. -/
theorem append_eq_append_of_disjoint {β : Type} {xs rest front back : List β}
    (h : xs ++ rest = front ++ back) (hdisjoint : ∀ x ∈ front, x ∉ rest) :
    ∃ ys, xs = front ++ ys ∧ ys ++ rest = back := by
  rcases List.append_eq_append_iff.1 h with ⟨ys, hfront, hrest⟩ | ⟨ys, hxs, hback⟩
  · cases ys with
    | nil =>
      rw [List.append_nil] at hfront
      exact ⟨[], by rw [hfront, List.append_nil], by rw [List.nil_append]; exact hrest⟩
    | cons y ys =>
      refine absurd ?_ (hdisjoint y ?_)
      · rw [hrest]
        exact List.mem_append_left _ List.mem_cons_self
      · rw [hfront]
        exact List.mem_append_right _ List.mem_cons_self
  · exact ⟨ys, hxs, hback.symm⟩

/-- **Segments that are all but those held back fall into frames**, each with further symbols that
are not flagged. -/
theorem frames_of_segments {stop : Nat} {ps : List (Nat × Nat)} (hps : Frames o stop ps)
    {emitted rest : List Segment} (h : emitted ++ rest = segments o (ps.map Prod.fst))
    (hrest : ∀ e ∈ rest, e.flag = 0 ∧ stop ≤ e.last + 1) :
    ∃ extras : List (List Segment), extras.length = ps.length ∧
      (∀ extra ∈ extras, ∀ e ∈ extra, e.flag = 0) ∧
      emitted = (ps.zip extras).flatMap fun p => frame o.symbol p.1 ++ p.2 := by
  induction ps generalizing emitted with
  | nil =>
    refine ⟨[], rfl, nofun, ?_⟩
    exact (List.append_eq_nil_iff.1 h).1
  | cons p ps ih =>
    obtain ⟨htimeout, hstop, hnext, hps⟩ := hps
    obtain ⟨extra, hfollowers, hextra⟩ := followers_of_fits o.symbol p.1
      (ps.map Prod.fst).head? htimeout (by
        intro t ht
        rw [List.head?_map, Option.mem_def, Option.map_eq_some_iff] at ht
        obtain ⟨q, hq, rfl⟩ := ht
        exact hnext q hq)
    have hsegments : segments o ((p :: ps).map Prod.fst) =
        frame o.symbol p ++ (extra ++ segments o (ps.map Prod.fst)) := by
      rw [List.map_cons, segments, hfollowers, frame, List.append_assoc, List.cons_append]
    rw [hsegments] at h
    have hdisjoint : ∀ e ∈ frame o.symbol p, e ∉ rest := by
      intro e he hmem
      obtain ⟨hflag, hlast⟩ := hrest e hmem
      rcases mem_frame he with hone | hle
      · rw [hflag] at hone
        cases hone
      · omega
    obtain ⟨behind, rfl, hbehind⟩ := append_eq_append_of_disjoint h hdisjoint
    rcases List.append_eq_append_iff.1 hbehind with ⟨held, hheld, hback⟩ | ⟨more, hmore, hback⟩
    · -- symbols of this frame are held back, so no trigger can be behind it
      cases ps with
      | nil =>
        refine ⟨[behind], rfl, ?_, ?_⟩
        · intro x hx e he
          rw [List.mem_singleton] at hx
          refine hextra e ?_
          rw [hheld]
          exact List.mem_append_left _ (hx ▸ he)
        · rw [List.zip_cons_cons, List.zip_nil_left, List.flatMap_singleton]
      | cons q ps =>
        have hmem : (⟨q.1, 1⟩ : Segment) ∈ rest := by
          rw [hback]
          exact List.mem_append_right _ List.mem_cons_self
        have hflag := (hrest _ hmem).1
        cases hflag
    · obtain ⟨extras, hlength, hflags, rfl⟩ := ih hps hback.symm
      refine ⟨extra :: extras, ?_, ?_, ?_⟩
      · rw [List.length_cons, List.length_cons, hlength]
      · intro x hx
        rcases List.mem_cons.1 hx with rfl | hx
        · exact hextra
        · exact hflags x hx
      · rw [List.zip_cons_cons, List.flatMap_cons, hmore, List.append_assoc]

/-! ### A cutter that has run dry -/

namespace Session.Sound

variable {s : Session α τ} {emitted : List Segment}

/-- **What a cutter that has run dry holds back**: triggers with less than a window behind them, and
symbols that reach up to the last sample. -/
theorem held_back (h : s.Sound o emitted)
    (hlength : s.triggers.data.length = s.samples.data.length)
    (hdry : s.cutter.available < s.cutter.window) :
    ∀ e ∈ ahead o s.cutter.phase s.cutter.samples.read s.triggers.data,
      e.flag = 1 ∧ s.samples.data.length ≤ e.last + o.symbol ∨
        e.flag = 0 ∧ s.samples.data.length ≤ e.last + 1 := by
  have hsamples := h.samples.items_eq
  have htriggers := h.triggers.items_eq
  rw [h.samples_width, Nat.div_one] at hsamples
  rw [h.triggers_width, Nat.div_one, h.aligned] at htriggers
  rw [window, available, h.options] at hdry
  intro e he
  rcases mem_ahead_cases he with ⟨t, hfirst, rfl⟩ | ⟨hflag, hlast⟩
  · exact .inl ⟨rfl, by dsimp only; omega⟩
  · exact .inr ⟨hflag, by omega⟩

/-- If no trigger is among them, that is nothing that is flagged. -/
theorem ahead_of_dry (h : s.Sound o emitted)
    (hlength : s.triggers.data.length = s.samples.data.length)
    (hdry : s.cutter.available < s.cutter.window)
    (hroom : ∀ t ∈ triggersFrom o.fft s.triggers.data, t + o.symbol + 1 < s.samples.data.length) :
    ∀ e ∈ ahead o s.cutter.phase s.cutter.samples.read s.triggers.data,
      e.flag = 0 ∧ s.samples.data.length ≤ e.last + 1 := by
  intro e he
  refine (h.held_back hlength hdry e he).resolve_left fun ⟨hflag, hlast⟩ => ?_
  obtain ⟨t, ht, rfl | ⟨hzero, -⟩⟩ :=
    mem_segments_cases (h.segments_eq ▸ List.mem_append_right emitted he)
  · have hstop := hroom t ht
    dsimp only at hlast
    omega
  · rw [hzero] at hflag
    cases hflag

/-- **What a cutter that has run dry has emitted**: every frame, each with further symbols that are
not flagged. -/
theorem frames_of_dry (h : s.Sound o emitted)
    (hlength : s.triggers.data.length = s.samples.data.length)
    (hdry : s.cutter.available < s.cutter.window) {ps : List (Nat × Nat)}
    (htriggers : triggersFrom o.fft s.triggers.data = ps.map Prod.fst)
    (hps : Frames o s.samples.data.length ps) (hpos : ∀ p ∈ ps, 0 < p.2) :
    ∃ extras : List (List Segment), extras.length = ps.length ∧
      (∀ extra ∈ extras, ∀ e ∈ extra, e.flag = 0) ∧
      emitted = (ps.zip extras).flatMap fun p => frame o.symbol p.1 ++ p.2 := by
  refine frames_of_segments hps (htriggers ▸ h.segments_eq)
    (h.ahead_of_dry hlength hdry fun t ht => ?_)
  rw [htriggers, List.mem_map] at ht
  obtain ⟨p, hp, rfl⟩ := ht
  have hstop := hps.lt p hp
  have hmul : 1 * o.symbol ≤ p.2 * o.symbol := Nat.mul_le_mul_right _ (hpos p hp)
  omega

end Session.Sound

end SymbolCutter

end OfdmBurst
