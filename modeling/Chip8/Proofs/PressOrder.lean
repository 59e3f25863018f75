/-
# Chip8.Proofs.PressOrder -- a script reports its presses in order

The presses of a script are sorted by their times, and presses of one time stay as they were
listed.  There is one such order (`Press.StablySorted.unique`), so where no two presses have
the same time the script does not depend on how they were listed
(`ofPresses_of_perm`).

A poll reports the first pending press if its time has come and nothing otherwise
(`PressScript.poll_cases`).  So whatever times the polls come at, forwards or backwards, the
presses reported are the first ones of the order and those pending are the rest
(`PressScript.reported_split`); a poll that is late enough for every press reports one as
long as any is pending (`PressScript.after_of_late`).  `presses_reported_in_order` puts this
together.
-/
import Chip8.Host.Input
import Mathlib.Algebra.Order.Ring.Unbundled.Rat
import Mathlib.Data.List.Nodup
import Mathlib.Data.List.ReduceOption

set_option autoImplicit false

namespace Chip8

namespace Press

/-! ## The order of presses -/

/-- An order of presses by their times that leaves presses of one time as they were listed. -/
structure StablySorted (presses order : List Press) : Prop where
  perm : order.Perm presses
  ordered : order.Pairwise fun p q => p.atMs ≤ q.atMs
  stable : ∀ time, order.filter (·.atMs = time) = presses.filter (·.atMs = time)

theorem sorted_perm (presses : List Press) : (sorted presses).Perm presses :=
  List.mergeSort_perm _ _

section Comparison

theorem atMs_trans (p q r : Press) (first : decide (p.atMs ≤ q.atMs) = true)
    (second : decide (q.atMs ≤ r.atMs) = true) : decide (p.atMs ≤ r.atMs) = true := by
  rw [decide_eq_true_eq] at first second ⊢
  exact first.trans second

theorem atMs_total (p q : Press) :
    (decide (p.atMs ≤ q.atMs) || decide (q.atMs ≤ p.atMs)) = true := by
  simpa using le_total p.atMs q.atMs

theorem sorted_ordered (presses : List Press) :
    (sorted presses).Pairwise fun p q => p.atMs ≤ q.atMs := by
  have ordered := List.pairwise_mergeSort atMs_trans atMs_total presses
  rw [sorted]
  simpa only [decide_eq_true_eq] using ordered

/-- The presses of one time stay as they were listed: they are a sorted part of the list, and
sorting keeps those. -/
theorem sorted_filter (presses : List Press) (time : Rat) :
    (sorted presses).filter (·.atMs = time) = presses.filter (·.atMs = time) := by
  have alike : (presses.filter (·.atMs = time)).Pairwise
      fun p q => decide (p.atMs ≤ q.atMs) = true := by
    apply List.pairwise_of_forall_mem_list
    intro p here q there
    have first : p.atMs = time := by simpa using (List.mem_filter.mp here).2
    have second : q.atMs = time := by simpa using (List.mem_filter.mp there).2
    rw [first, second, decide_eq_true_eq]
  have kept := List.sublist_mergeSort atMs_trans atMs_total alike List.filter_sublist
  have part := kept.filter (·.atMs = time)
  rw [List.filter_filter] at part
  simp only [Bool.and_self] at part
  exact (part.eq_of_length ((sorted_perm presses).filter _).length_eq.symm).symm

end Comparison

/-- Sorting is one such order. -/
theorem stablySorted_sorted (presses : List Press) : StablySorted presses (sorted presses) where
  perm := sorted_perm presses
  ordered := sorted_ordered presses
  stable := sorted_filter presses

/-- In the order of their times, the first press is no later than any. -/
theorem atMs_head_le {p q : Press} {rest : List Press}
    (ordered : (p :: rest).Pairwise fun p q => p.atMs ≤ q.atMs) (here : q ∈ p :: rest) :
    p.atMs ≤ q.atMs := by
  rcases List.mem_cons.mp here with rfl | later
  · exact le_rfl
  · exact (List.pairwise_cons.mp ordered).1 q later

theorem mem_iff_of_filter {order other : List Press}
    (same : ∀ time, order.filter (·.atMs = time) = other.filter (·.atMs = time)) (p : Press) :
    p ∈ order ↔ p ∈ other := by
  have both := congrArg (p ∈ ·) (same p.atMs)
  simpa using both

/-- Two lists in the order of their times are the same if they have the same presses at each
time. -/
theorem eq_of_ordered {order other : List Press}
    (ordered : order.Pairwise fun p q => p.atMs ≤ q.atMs)
    (ordered' : other.Pairwise fun p q => p.atMs ≤ q.atMs)
    (same : ∀ time, order.filter (·.atMs = time) = other.filter (·.atMs = time)) :
    order = other := by
  induction order generalizing other with
  | nil =>
    cases other with
    | nil => rfl
    | cons q others => simpa using mem_iff_of_filter same q
  | cons p rest ih =>
    cases other with
    | nil => simpa using mem_iff_of_filter same p
    | cons q others =>
      have time : p.atMs = q.atMs := by
        apply le_antisymm
        · exact atMs_head_le ordered ((mem_iff_of_filter same q).mpr List.mem_cons_self)
        · exact atMs_head_le ordered' ((mem_iff_of_filter same p).mp List.mem_cons_self)
      have first := same p.atMs
      rw [List.filter_cons_of_pos (by simp), List.filter_cons_of_pos (by simp [time])] at first
      obtain ⟨rfl, -⟩ := List.cons.inj first
      have rests : ∀ time, rest.filter (·.atMs = time) = others.filter (·.atMs = time) := by
        intro time
        have both := same time
        by_cases here : p.atMs = time
        · rw [List.filter_cons_of_pos (by simpa), List.filter_cons_of_pos (by simpa)] at both
          exact (List.cons.inj both).2
        · rw [List.filter_cons_of_neg (by simpa), List.filter_cons_of_neg (by simpa)] at both
          exact both
      apply congrArg (p :: ·)
      exact ih (List.pairwise_cons.mp ordered).2 (List.pairwise_cons.mp ordered').2 rests

/-- **There is one stable order.** -/
theorem StablySorted.unique {presses order other : List Press}
    (sorted : StablySorted presses order) (sorted' : StablySorted presses other) :
    order = other := by
  apply eq_of_ordered sorted.ordered sorted'.ordered
  intro time
  rw [sorted.stable, sorted'.stable]

theorem stablySorted_iff {presses order : List Press} :
    StablySorted presses order ↔ order = sorted presses := by
  constructor
  · intro sorted
    exact sorted.unique (stablySorted_sorted presses)
  · rintro rfl
    exact stablySorted_sorted presses

/-- Where no two presses have the same time their order does not depend on how they were
listed. -/
theorem sorted_of_perm {presses other : List Press} (perm : other.Perm presses)
    (distinct : (presses.map (·.atMs)).Nodup) : sorted other = sorted presses := by
  apply List.Perm.eq_of_pairwise _ (sorted_ordered other) (sorted_ordered presses)
    (((sorted_perm other).trans perm).trans (sorted_perm presses).symm)
  intro p q here there before after
  have listed : p ∈ presses := perm.mem_iff.mp ((sorted_perm other).mem_iff.mp here)
  have listed' : q ∈ presses := (sorted_perm presses).mem_iff.mp there
  exact List.inj_on_of_nodup_map distinct listed listed' (le_antisymm before after)

end Press

namespace PressScript

/-! ## One poll -/

/-- **A poll reports the first pending press once its time has come**, and otherwise nothing. -/
theorem poll_cases (s : PressScript) (now : Rat) :
    (s.poll now = (none, s) ∧ ∀ p ∈ s.pending.head?, now < p.atMs) ∨
      (∃ p rest, s.pending = p :: rest ∧ p.atMs ≤ now ∧
        s.poll now = (some p.key, { pending := rest })) := by
  cases pending : s.pending with
  | nil =>
    left
    simp [poll, pending]
  | cons p rest =>
    by_cases early : now < p.atMs
    · left
      simp [poll, pending, early]
    · right
      refine ⟨p, rest, rfl, not_lt.mp early, ?_⟩
      simp [poll, pending, early]

/-! ## Polls at some times -/

/-- The answers to polls at some times, one after the other. -/
def answers (s : PressScript) : List Rat → List (Option Rat)
  | [] => []
  | now :: later => (s.poll now).1 :: (s.poll now).2.answers later

/-- The script after these polls. -/
def after (s : PressScript) : List Rat → PressScript
  | [] => s
  | now :: later => (s.poll now).2.after later

/-- The keys reported in these polls. -/
def reported (s : PressScript) (times : List Rat) : List Rat := (s.answers times).reduceOption

/-- **What is reported and what is pending are the presses of the script**, in their order. -/
theorem reported_split (s : PressScript) (times : List Rat) :
    ∃ past, s.pending = past ++ (s.after times).pending ∧ s.reported times = past.map (·.key) := by
  induction times generalizing s with
  | nil => exact ⟨[], rfl, rfl⟩
  | cons now later ih =>
    obtain ⟨past, pending, keys⟩ := ih (s.poll now).2
    rcases s.poll_cases now with ⟨answer, -⟩ | ⟨p, rest, here, -, answer⟩
    · rw [answer] at pending keys
      refine ⟨past, ?_, ?_⟩
      · rw [after, answer]
        exact pending
      · rw [reported, answers, answer, List.reduceOption_cons_of_none]
        exact keys
    · rw [answer] at pending keys
      refine ⟨p :: past, ?_, ?_⟩
      · rw [after, answer, here, List.cons_append, ← pending]
      · rw [reported, answers, answer, List.reduceOption_cons_of_some, List.map_cons]
        exact congrArg _ keys

/-- **No press is kept back**: polls that come late enough for all presses report one each, as
long as any is pending. -/
theorem after_of_late (s : PressScript) (times : List Rat) (late : Rat → Bool)
    (enough : ∀ now, late now = true → ∀ p ∈ s.pending, p.atMs ≤ now)
    (many : s.pending.length ≤ times.countP late) : (s.after times).pending = [] := by
  induction times generalizing s with
  | nil => simpa [after] using many
  | cons now later ih =>
    rw [after]
    rcases s.poll_cases now with ⟨answer, early⟩ | ⟨p, rest, here, -, answer⟩
    · rw [answer]
      apply ih s enough
      -- a poll without an answer is not late, unless nothing is pending
      cases pending : s.pending with
      | nil => exact Nat.zero_le _
      | cons p rest =>
        have before : ¬ late now = true := by
          intro due
          have first : now < p.atMs := early p (by simp [pending])
          exact absurd (enough now due p (by simp [pending])) (not_le.mpr first)
        rwa [List.countP_cons_of_neg before, pending] at many
    · rw [answer]
      apply ih
      · intro now due q pending
        exact enough now due q (by simp [here, pending])
      · rw [here, List.length_cons, List.countP_cons] at many
        show rest.length ≤ _
        split at many <;> omega

/-! ## All presses, in order -/

/-- Where no two presses have the same time the script does not depend on how they were
listed. -/
theorem ofPresses_of_perm {presses other : List Press} (perm : other.Perm presses)
    (distinct : (presses.map (·.atMs)).Nodup) : ofPresses other = ofPresses presses := by
  rw [ofPresses, ofPresses, Press.sorted_of_perm perm distinct]

/-- **A script reports every press once and in order.**  Whatever times it is polled at, the
keys reported so far are the first ones of the presses in their stable order.  The next poll
reports the next of them only if its time has come, and reports nothing only if all whose
time has come have been reported.  As many polls as there are presses, at times no press is
later than, leave none unreported.  Presses of different times may be listed in any order. -/
theorem presses_reported_in_order (presses : List Press) (times : List Rat) :
    let order := Press.sorted presses
    let script := ofPresses presses
    let reported := script.reported times
    (∀ other, Press.StablySorted presses other ↔ other = order) ∧
    reported <+: order.map (·.key) ∧
    (∀ now key, ((script.after times).poll now).1 = some key →
      ∃ p, order[reported.length]? = some p ∧ p.key = key ∧ p.atMs ≤ now) ∧
    (∀ now, ((script.after times).poll now).1 = none →
      ∀ i p, order[i]? = some p → p.atMs ≤ now → i < reported.length) ∧
    (presses.length ≤ times.countP (fun now => ∀ p ∈ presses, p.atMs ≤ now) →
      reported = order.map (·.key)) ∧
    ∀ other, other.Perm presses → (presses.map (·.atMs)).Nodup → ofPresses other = script := by
  intro order script reported
  obtain ⟨past, split, keys⟩ := script.reported_split times
  have split : order = past ++ (script.after times).pending := split
  have count : reported.length = past.length := by
    rw [show reported = past.map (·.key) from keys, List.length_map]
  refine ⟨fun other => Press.stablySorted_iff, ?_, ?_, ?_, ?_, ?_⟩
  · refine ⟨(script.after times).pending.map (·.key), ?_⟩
    rw [split, List.map_append]
    exact congrArg (· ++ _) keys
  · intro now key answered
    rcases (script.after times).poll_cases now with ⟨answer, -⟩ | ⟨p, rest, here, due, answer⟩
    · rw [answer] at answered
      cases answered
    · rw [answer] at answered
      refine ⟨p, ?_, Option.some.inj answered, due⟩
      rw [split, count, here]
      simp
  · intro now answered i p found due
    rcases (script.after times).poll_cases now with ⟨-, early⟩ | ⟨q, rest, -, -, answer⟩
    · by_contra unreported
      rw [count, not_lt] at unreported
      rw [split, List.getElem?_append_right unreported] at found
      have pending := List.mem_of_getElem? found
      have ordered : order.Pairwise fun p q => p.atMs ≤ q.atMs := Press.sorted_ordered presses
      rw [split] at ordered
      have ordered := (List.pairwise_append.mp ordered).2.1
      cases rest : (script.after times).pending with
      | nil => simp [rest] at pending
      | cons first others =>
        rw [rest] at ordered pending early
        have before : now < first.atMs := early first rfl
        rcases List.mem_cons.mp pending with rfl | later
        · exact absurd due (not_le.mpr before)
        · have after := (List.pairwise_cons.mp ordered).1 p later
          exact absurd due (not_le.mpr (before.trans_le after))
    · rw [answer] at answered
      cases answered
  · intro many
    have all : (script.after times).pending = [] := by
      apply script.after_of_late times (fun now => decide (∀ p ∈ presses, p.atMs ≤ now))
      · intro now late p pending
        exact (of_decide_eq_true late) p ((Press.sorted_perm presses).mem_iff.mp pending)
      · rw [show script.pending.length = presses.length from
          (Press.sorted_perm presses).length_eq]
        exact many
    rw [split, all, List.append_nil]
    exact keys
  · intro other perm distinct
    exact ofPresses_of_perm perm distinct

/-- Three presses, two of them at one time. -/
def threePresses : List Press :=
  [{ key := 7, atMs := 20 }, { key := 5, atMs := 10 }, { key := 6, atMs := 20 }]

theorem sorted_threePresses : Press.sorted threePresses =
    [{ key := 5, atMs := 10 }, { key := 7, atMs := 20 }, { key := 6, atMs := 20 }] := by
  apply Eq.symm
  rw [← Press.stablySorted_iff]
  refine ⟨List.Perm.swap _ _ _, by decide, ?_⟩
  intro time
  by_cases late : (20 : Rat) = time
  · subst late
    simp [threePresses]
  · simp [threePresses, List.filter_cons, late]

/-- The clock goes back and forth.  Two polls have reported a key after three, the third press
is reported when its time has come and not before it, and no press is left after three late
polls.  Two presses of different times may change places. -/
theorem presses_reported_in_order_threePresses :
    let script := ofPresses threePresses
    script.reported [15, 5, 30] = [5, 7] ∧
      (∃ p, (Press.sorted threePresses)[2]? = some p ∧ p.key = 6 ∧ p.atMs ≤ 20) ∧
      (∀ (i : Nat) (p : Press), (Press.sorted threePresses)[i]? = some p → p.atMs ≤ 19 → i < 2) ∧
      script.reported [20, 5, 30, 20] = [5, 7, 6] ∧
      ofPresses [{ key := 7, atMs := 20 }, { key := 5, atMs := 10 }] =
        ofPresses [{ key := 5, atMs := 10 }, { key := 7, atMs := 20 }] := by
  intro script
  have pending : script = { pending :=
      [{ key := 5, atMs := 10 }, { key := 7, atMs := 20 }, { key := 6, atMs := 20 }] } :=
    congrArg PressScript.mk sorted_threePresses
  have two : script.reported [15, 5, 30] = [5, 7] := by
    rw [pending]
    decide +kernel
  have due : ((script.after [15, 5, 30]).poll 20).1 = some 6 := by
    rw [pending]
    decide +kernel
  have early : ((script.after [15, 5, 30]).poll 19).1 = none := by
    rw [pending]
    decide +kernel
  obtain ⟨-, -, next, nothing, -⟩ := presses_reported_in_order threePresses [15, 5, 30]
  obtain ⟨-, -, -, -, all, -⟩ := presses_reported_in_order threePresses [20, 5, 30, 20]
  obtain ⟨-, -, -, -, -, listed⟩ := presses_reported_in_order
    [{ key := 5, atMs := 10 }, { key := 7, atMs := 20 }] []
  have third := next 20 6 due
  have before := nothing 19 early
  rw [show (ofPresses threePresses).reported [15, 5, 30] = [5, 7] from two] at third before
  refine ⟨two, third, before, ?_, listed _ (List.Perm.swap _ _ _) (by decide +kernel)⟩
  rw [show script.reported [20, 5, 30, 20] = _ from all (by decide +kernel), sorted_threePresses]
  rfl

end PressScript

end Chip8
