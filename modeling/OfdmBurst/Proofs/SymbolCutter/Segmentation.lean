import Mathlib.Tactic.Common
import OfdmBurst.Block.SymbolCutter

/-!
# The segmentation of a sample stream

Which symbols a cutter emits depends on the triggers alone, and not on how the streams arrive. This
module says which ones, as a function of whole streams, and how much of it is still to come when a
cutter stands at some place of the stream in some phase.

## The reference

A `Segment` is a symbol named by the place of its last sample. Every non-zero trigger with an fft
length of samples before it ends a flagged segment. Behind it, one segment follows every symbol
length, at most as many as the timeout allows, and none from where the next trigger is too close.
"Too close" is at most one sample behind the end of the segment: the window of a look reaches one
sample further than the symbol it would emit.

## What is still to come

`ahead` is the reference read from the middle. Its three equations mirror the three things that a
look at the window can lead to, and each splits off exactly what that look emits. They hold for the
whole stream of triggers, of which a look sees one window, so nothing that is pushed later can
change what was emitted.

## Main definitions

* `Segment`, `Segment.samples` — a symbol of the stream by its place
* `triggersFrom` — the places of the triggers that count
* `followers`, `segments`, `segmentation` — the reference
* `ahead` — the part of it that a cutter has not emitted yet

## Main results

* `mem_segments_cases` — where segments end
* `le_last_of_mem_ahead` — what is still to come was not used up
* `ahead_of_some`, `ahead_frame_of_none`, `ahead_search_of_none`
-/

namespace OfdmBurst

namespace SymbolCutter

/-- A symbol of the stream: the place of its last sample, and the flag it is emitted with. -/
structure Segment where
  last : Nat
  flag : UInt8
deriving DecidableEq, Repr

variable {α τ : Type}

/-- The samples of a segment. -/
def Segment.samples (s : Segment) (fft : Nat) (xs : List α) : List α :=
  (xs.drop (s.last + 1 - fft)).take fft

/-- The places of the non-zero triggers from `first` on. -/
def triggersFrom (first : Nat) (triggers : List UInt8) : List Nat :=
  (List.range' first (triggers.length - first)).filter fun i => triggers.getD i 0 != 0

/-- The segments behind one that ends at `last`, one every symbol length: at most `n`, and only
while the next trigger, if there is one, is more than one sample behind their end. -/
def followers (symbol last n : Nat) (next : Option Nat) : List Segment :=
  ((List.range' 1 n).takeWhile fun j => next.all fun t => decide (last + j * symbol + 1 < t)).map
    fun j => ⟨last + j * symbol, 0⟩

/-- The segments for a list of triggers. -/
def segments (o : CutterOptions τ) : List Nat → List Segment
  | [] => []
  | t :: later => ⟨t, 1⟩ :: (followers o.symbol t o.timeout later.head? ++ segments o later)

/-- **The reference.** Every symbol that is to be emitted, with its flag, for whole streams. -/
def segmentation (o : CutterOptions τ) (samples : List α) (triggers : List UInt8) :
    List (List α × UInt8) :=
  (segments o (triggersFrom o.fft triggers)).map fun s => (s.samples o.fft samples, s.flag)

/-- The segments that a cutter has not emitted yet when it has used up `read` samples. Inside a
frame, the last one emitted ended one sample before the first that is looked at. -/
def ahead (o : CutterOptions τ) (phase : Phase) (read : Nat) (triggers : List UInt8) :
    List Segment :=
  let later := triggersFrom (read + o.fft) triggers
  match phase with
  | .search => segments o later
  | .frame n => followers o.symbol (read + o.fft - 1) n later.head? ++ segments o later

/-! ### Triggers -/

theorem mem_triggersFrom {first t : Nat} {triggers : List UInt8} (h : t ∈ triggersFrom first triggers) :
    first ≤ t ∧ t < triggers.length := by
  have hrange := (List.mem_filter.1 h).1
  rw [List.mem_range'_1] at hrange
  omega

/-- The first trigger counts, or it does not, and the others are those behind it. -/
theorem triggersFrom_eq {first : Nat} {triggers : List UInt8} (h : first < triggers.length) :
    triggersFrom first triggers =
      if triggers[first] != 0 then first :: triggersFrom (first + 1) triggers
      else triggersFrom (first + 1) triggers := by
  have hlen : triggers.length - first = triggers.length - (first + 1) + 1 := by omega
  have hget : triggers.getD first 0 = triggers[first] := by
    rw [List.getD_eq_getElem?_getD, List.getElem?_eq_getElem h, Option.getD_some]
  rw [triggersFrom, hlen, List.range'_succ, List.filter_cons, hget]
  rfl

/-- No trigger in a window: those from its start on are those from any place inside it on. -/
theorem triggersFrom_of_none {first n m : Nat} {triggers : List UInt8}
    (h : ((triggers.drop first).take n).findIdx? (· != 0) = none)
    (hn : first + n ≤ triggers.length) (hm : m ≤ n) :
    triggersFrom first triggers = triggersFrom (first + m) triggers := by
  induction m generalizing first n with
  | zero => rfl
  | succ m ih =>
    obtain ⟨k, rfl⟩ : ∃ k, n = k + 1 := ⟨n - 1, by omega⟩
    have hfirst : first < triggers.length := by omega
    rw [List.drop_eq_getElem_cons hfirst, List.take_succ_cons, List.findIdx?_cons] at h
    split at h
    · cases h
    next hzero =>
      rw [triggersFrom_eq hfirst, if_neg hzero,
        ih (n := k) (by simpa using h) (by omega) (by omega)]
      congr 1
      omega

/-- The first trigger of a window is the first of all from its start on. -/
theorem triggersFrom_of_some {first n k : Nat} {triggers : List UInt8}
    (h : ((triggers.drop first).take n).findIdx? (· != 0) = some k)
    (hn : first + n ≤ triggers.length) :
    triggersFrom first triggers = (first + k) :: triggersFrom (first + k + 1) triggers := by
  induction n generalizing first k with
  | zero => simp at h
  | succ n ih =>
    have hfirst : first < triggers.length := by omega
    rw [List.drop_eq_getElem_cons hfirst, List.take_succ_cons, List.findIdx?_cons] at h
    split at h
    next hset =>
      cases h
      rw [triggersFrom_eq hfirst, if_pos hset]
      rfl
    next hzero =>
      obtain ⟨j, hj, rfl⟩ := Option.map_eq_some_iff.1 h
      rw [triggersFrom_eq hfirst, if_neg hzero, ih hj (by omega)]
      congr 1
      · omega
      · congr 1
        omega

/-! ### Followers -/

/-- The first follower, and the others counted from it. -/
theorem followers_succ (symbol last n : Nat) (next : Option Nat) :
    followers symbol last (n + 1) next =
      if next.all fun t => decide (last + symbol + 1 < t) then
        ⟨last + symbol, 0⟩ :: followers symbol (last + symbol) n next
      else [] := by
  have hshift : List.range' 2 n = (List.range' 1 n).map (· + 1) := by
    rw [show (fun j : Nat => j + 1) = (1 + ·) from funext fun j => Nat.add_comm j 1,
      List.map_add_range']
  have hplace : ∀ j, last + (j + 1) * symbol = last + symbol + j * symbol := by
    intro j
    rw [Nat.add_mul]; omega
  rw [followers, List.range'_succ, List.takeWhile_cons]
  simp only [Nat.one_mul]
  split
  · rw [List.map_cons, Nat.one_mul, hshift, List.takeWhile_map, List.map_map, followers]
    simp only [Function.comp_def, hplace]
  · rfl

theorem followers_of_le {symbol last n t : Nat} (h : t ≤ last + symbol + 1) :
    followers symbol last n (some t) = [] := by
  cases n with
  | zero => rfl
  | succ n =>
    rw [followers_succ, if_neg]
    simpa using h

theorem flag_of_mem_followers {symbol last n : Nat} {next : Option Nat} {e : Segment}
    (h : e ∈ followers symbol last n next) : e.flag = 0 := by
  obtain ⟨j, -, rfl⟩ := List.mem_map.1 h
  rfl

theorem le_last_of_mem_followers {symbol last n : Nat} {next : Option Nat} {e : Segment}
    (h : e ∈ followers symbol last n next) : last + symbol ≤ e.last := by
  obtain ⟨j, hj, rfl⟩ := List.mem_map.1 h
  have hrange := List.takeWhile_subset _ hj
  rw [List.mem_range'_1] at hrange
  have hmul : 1 * symbol ≤ j * symbol := Nat.mul_le_mul_right symbol hrange.1
  rw [Nat.one_mul] at hmul
  exact Nat.add_le_add_left hmul _

/-! ### Where segments end -/

/-- A segment ends at a trigger, or it follows one. -/
theorem mem_segments_cases {o : CutterOptions τ} {ts : List Nat} {e : Segment} (h : e ∈ segments o ts) :
    ∃ t ∈ ts, e = ⟨t, 1⟩ ∨ e.flag = 0 ∧ t + o.symbol ≤ e.last := by
  induction ts with
  | nil => cases h
  | cons t later ih =>
    rcases List.mem_cons.1 h with rfl | h
    · exact ⟨t, List.mem_cons_self, .inl rfl⟩
    · rcases List.mem_append.1 h with h | h
      · exact ⟨t, List.mem_cons_self, .inr ⟨flag_of_mem_followers h, le_last_of_mem_followers h⟩⟩
      · obtain ⟨u, hu, he⟩ := ih h
        exact ⟨u, List.mem_cons_of_mem t hu, he⟩

/-- What is ahead ends at a trigger that was not used up, or it follows one or the last segment. -/
theorem mem_ahead_cases {o : CutterOptions τ} {phase : Phase} {read : Nat} {triggers : List UInt8}
    {e : Segment} (h : e ∈ ahead o phase read triggers) :
    (∃ t, read + o.fft ≤ t ∧ e = ⟨t, 1⟩) ∨ e.flag = 0 ∧ read + o.fft + o.symbol ≤ e.last + 1 := by
  have hlater : e ∈ segments o (triggersFrom (read + o.fft) triggers) ∨
      e.flag = 0 ∧ read + o.fft - 1 + o.symbol ≤ e.last := by
    cases phase with
    | search => exact .inl h
    | frame n =>
      rcases List.mem_append.1 h with hfollows | h
      · exact .inr ⟨flag_of_mem_followers hfollows, le_last_of_mem_followers hfollows⟩
      · exact .inl h
  rcases hlater with hmem | ⟨hflag, hlast⟩
  · obtain ⟨t, ht, hcases⟩ := mem_segments_cases hmem
    have hfirst := (mem_triggersFrom ht).1
    rcases hcases with rfl | ⟨hflag, hlast⟩
    · exact .inl ⟨t, hfirst, rfl⟩
    · exact .inr ⟨hflag, by omega⟩
  · exact .inr ⟨hflag, by omega⟩

/-- **What is ahead is not used up**, neither the samples of a segment nor its trigger. -/
theorem le_last_of_mem_ahead {o : CutterOptions τ} (hsymbol : 0 < o.symbol) {phase : Phase}
    {read : Nat} {triggers : List UInt8} {e : Segment} (h : e ∈ ahead o phase read triggers) :
    read + o.fft ≤ e.last := by
  rcases mem_ahead_cases h with ⟨t, hfirst, rfl⟩ | ⟨-, hlast⟩
  · exact hfirst
  · omega

/-! ### The three things a look can lead to

`window` is what a look scans: a symbol length of triggers and one more, behind the first fft length.
In each equation the place reached is that of the look's consumption. -/

section Look

variable {o : CutterOptions τ} {read : Nat} {triggers : List UInt8}

/-- A trigger is found. Whatever the phase, its segment is next, and a new frame begins. -/
theorem ahead_of_some {k : Nat} (hfft : 0 < o.fft)
    (h : ((triggers.drop (read + o.fft)).take (o.symbol + 1)).findIdx? (· != 0) = some k)
    (hn : read + o.fft + (o.symbol + 1) ≤ triggers.length) (phase : Phase) :
    ahead o phase read triggers =
      ⟨read + o.fft + k, 1⟩ :: ahead o (.frame o.timeout) (read + (k + 1)) triggers := by
  have hk : k < o.symbol + 1 := by
    have := (List.findIdx?_eq_some_iff_getElem.1 h).1
    rw [List.length_take] at this
    omega
  have hplace : read + (k + 1) + o.fft = read + o.fft + k + 1 := by omega
  have hlast : read + (k + 1) + o.fft - 1 = read + o.fft + k := by omega
  have hsegments : segments o (triggersFrom (read + o.fft) triggers) =
      ⟨read + o.fft + k, 1⟩ :: ahead o (.frame o.timeout) (read + (k + 1)) triggers := by
    rw [triggersFrom_of_some h hn, segments, ahead, hlast, hplace]
  cases phase with
  | search => exact hsegments
  | frame n =>
    rw [ahead, hsegments, triggersFrom_of_some h hn, List.head?_cons,
      followers_of_le (by omega), List.nil_append]

/-- No trigger is found inside a frame. The frame goes on for one symbol. -/
theorem ahead_frame_of_none {n : Nat} (hfft : 0 < o.fft)
    (h : ((triggers.drop (read + o.fft)).take (o.symbol + 1)).findIdx? (· != 0) = none)
    (hn : read + o.fft + (o.symbol + 1) ≤ triggers.length) :
    ahead o (.frame (n + 1)) read triggers =
      ⟨read + o.fft + o.symbol - 1, 0⟩ :: ahead o (countdown (n + 1)) (read + o.symbol) triggers := by
  have hsame : triggersFrom (read + o.fft) triggers =
      triggersFrom (read + o.symbol + o.fft) triggers := by
    rw [triggersFrom_of_none h hn (Nat.le_succ o.symbol)]
    congr 1
    omega
  have hnext : ((triggersFrom (read + o.fft) triggers).head?.all
      fun t => decide (read + o.fft - 1 + o.symbol + 1 < t)) = true := by
    rw [triggersFrom_of_none h hn (Nat.le_refl _)]
    cases hts : triggersFrom (read + o.fft + (o.symbol + 1)) triggers with
    | nil => rfl
    | cons t later =>
      have := (mem_triggersFrom (t := t) (by rw [hts]; simp)).1
      simp only [List.head?_cons, Option.all_some, decide_eq_true_eq]
      omega
  have hlast : read + o.fft - 1 + o.symbol = read + o.fft + o.symbol - 1 := by omega
  have hlast' : read + o.symbol + o.fft - 1 = read + o.fft + o.symbol - 1 := by omega
  rw [ahead, followers_succ, if_pos hnext, hsame, List.cons_append, hlast]
  congr 1
  cases n with
  | zero => rfl
  | succ n =>
    rw [countdown, if_neg (by omega), ahead, hlast', Nat.add_sub_cancel]

/-- No trigger is found while searching. Nothing is next, and the search goes on behind the
window. -/
theorem ahead_search_of_none
    (h : ((triggers.drop (read + o.fft)).take (o.symbol + 1)).findIdx? (· != 0) = none)
    (hn : read + o.fft + (o.symbol + 1) ≤ triggers.length) :
    ahead o .search read triggers = ahead o .search (read + (o.symbol + 1)) triggers := by
  rw [ahead, ahead, triggersFrom_of_none h hn (Nat.le_refl _)]
  congr 2
  omega

end Look

end SymbolCutter

end OfdmBurst
