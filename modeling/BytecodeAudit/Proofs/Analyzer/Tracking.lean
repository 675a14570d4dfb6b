import Mathlib.Algebra.BigOperators.Fin
import Mathlib.Algebra.Order.BigOperators.Group.Finset
import Mathlib.Tactic.TFAE
import BytecodeAudit.Auditor
import BytecodeAudit.Proofs.Analyzer.CodeAudit
import BytecodeAudit.Proofs.Scan.SymbolFiles

/-!
# Tracking of audits

A tracker adds up announcements in a word. Each is checked by itself, but their sum may wrap
(`Tracker.totalAfter_eq`).

In whatever order audits that share a tracker take turns, no report is of more finished units than
announced ones: no audit finishes more than it has announced (`AuditStep.ArePaced`), and the
announced units only grow. One turn keeps this (`SharedTracking.Follows.step`), and so does every
order of turns (`SharedTracking.Follows.run`).
-/

namespace BytecodeAudit

open List

namespace Tracker

variable {t : Tracker}

lemma fitsWord_iff {n : Int} : fitsWord n ↔ -2 ^ 31 ≤ n ∧ n < 2 ^ 31 := by
  have hspan : (Word.span (32 - 1) : Int) = 2 ^ 31 := by decide
  rw [fitsWord, Word.fitsSigned, hspan, Bool.and_eq_true, decide_eq_true_eq, decide_eq_true_eq]

lemma toInt_total_eq (t : Tracker) : t.total.toInt = (t.total.toInt + (0 : Nat)).bmod (2 ^ 32) := by
  rw [Nat.cast_zero, Int.add_zero]
  exact t.total.toInt_bmod.symm

lemma toInt_total_add (t : Tracker) (n : Nat) :
    (t.add n).total.toInt = (t.total.toInt + if fitsWord n then n else 0).bmod (2 ^ 32) := by
  rw [add]
  split
  · rw [Int32.toInt_add, Int32.toInt_ofInt]
    exact Int.add_bmod_bmod
  · exact t.toInt_total_eq

lemma total_add {n : Nat} (h : 0 ≤ t.total.toInt) (hlt : t.total.toInt + n < 2 ^ 31) :
    (t.add n).total.toInt = t.total.toInt + n := by
  rw [toInt_total_add, if_pos (fitsWord_iff.2 (by omega))]
  exact Int.bmod_eq_of_le (by omega) (by omega)

lemma done_add (t : Tracker) (n : Int) : (t.add n).done = t.done := by
  rw [add]
  split <;> rfl

lemma done_tick (h : 0 ≤ t.done.toInt) (hlt : t.done.toInt + 1 < 2 ^ 31) : t.tick.done.toInt = t.done.toInt + 1 := by
  have hone : (1 : Int32).toInt = 1 := rfl
  rw [tick, Int32.toInt_add, hone]
  exact Int.bmod_eq_of_le (by omega) (by omega)

end Tracker

namespace AuditStep

def announced : AuditStep → Nat
  | .announce n => n
  | _ => 0

def finished : AuditStep → Nat
  | .finish _ => 1
  | _ => 0

def countIn (units : AuditStep → Nat) (steps : List AuditStep) : Nat := (steps.map units).sum

variable {units : AuditStep → Nat}

@[simp]
lemma countIn_nil : countIn units [] = 0 := rfl

@[simp]
lemma countIn_cons (step : AuditStep) (steps : List AuditStep) :
    countIn units (step :: steps) = units step + countIn units steps := sum_cons

@[simp]
lemma countIn_append (steps steps' : List AuditStep) :
    countIn units (steps ++ steps') = countIn units steps + countIn units steps' := by
  rw [countIn, map_append, sum_append_nat, countIn, countIn]

lemma countIn_le_of_isPrefix (units : AuditStep → Nat) {taken steps : List AuditStep} (h : taken <+: steps) :
    countIn units taken ≤ countIn units steps := by
  obtain ⟨rest, rfl⟩ := h
  rw [countIn_append]
  exact Nat.le_add_right _ _

lemma countIn_of_forall {steps : List AuditStep} (h : ∀ step ∈ steps, step.announced = 0 ∧ step.finished = 0) :
    countIn announced steps = 0 ∧ countIn finished steps = 0 := by
  induction steps with
  | nil => exact ⟨rfl, rfl⟩
  | cons step steps ih =>
    obtain ⟨hstep, hsteps⟩ := forall_mem_cons.1 h
    rw [countIn_cons, countIn_cons, hstep.1, hstep.2, (ih hsteps).1, (ih hsteps).2]
    exact ⟨rfl, rfl⟩

lemma countIn_map_log (log : List LogRecord) :
    countIn announced (log.map .log) = 0 ∧ countIn finished (log.map .log) = 0 :=
  countIn_of_forall (forall_mem_map.2 fun _ _ => ⟨rfl, rfl⟩)

/-- Whether steps never finish more units than they have announced before. -/
def ArePaced (steps : List AuditStep) : Prop :=
  ∀ taken, taken <+: steps → countIn finished taken ≤ countIn announced taken

lemma arePaced_append_announce {before rest : List AuditStep} {n : Nat}
    (hbefore : countIn finished before = 0) (hrest : countIn finished rest ≤ n) :
    ArePaced (before ++ .announce n :: rest) := by
  intro taken htaken
  have hmid : before ++ [AuditStep.announce n] <+: before ++ .announce n :: rest := ⟨rest, by simp⟩
  rcases Nat.le_total taken.length (before ++ [AuditStep.announce n]).length with hlength | hlength
  · -- nothing is finished yet
    have hle := countIn_le_of_isPrefix finished (prefix_of_prefix_length_le htaken hmid hlength)
    simp only [countIn_append, countIn_cons, countIn_nil, hbefore, finished] at hle
    omega
  · have hle := countIn_le_of_isPrefix announced (prefix_of_prefix_length_le hmid htaken hlength)
    have hall := countIn_le_of_isPrefix finished htaken
    simp only [countIn_append, countIn_cons, countIn_nil, announced] at hle
    simp only [countIn_append, countIn_cons, hbefore, finished] at hall
    omega

end AuditStep

open AuditStep (announced finished countIn)

/-! ### Sharing a tracker -/

def Tracker.take (t : Tracker) : AuditStep → Tracker
  | .announce n => t.add n
  | .finish _ => t.tick
  | _ => t

lemma Tracker.toInt_take (t : Tracker) (step : AuditStep) (htotal : 0 ≤ t.total.toInt) (hdone : 0 ≤ t.done.toInt)
    (htotal_lt : t.total.toInt + step.announced < 2 ^ 31) (hdone_lt : t.done.toInt + step.finished < 2 ^ 31) :
    (t.take step).total.toInt = t.total.toInt + step.announced ∧
      (t.take step).done.toInt = t.done.toInt + step.finished := by
  cases step with
  | announce n =>
    have hone : (AuditStep.announce n).announced = n := rfl
    rw [hone] at htotal_lt ⊢
    exact ⟨total_add htotal htotal_lt, by rw [take, done_add]; exact (Int.add_zero _).symm⟩
  | finish unit =>
    have hone : ((AuditStep.finish unit).finished : Int) = 1 := rfl
    rw [hone] at hdone_lt ⊢
    exact ⟨(Int.add_zero _).symm, done_tick hdone hdone_lt⟩
  | send | log | cancel => exact ⟨(Int.add_zero _).symm, (Int.add_zero _).symm⟩

/-! ### Totals -/

/-- The units that are added to a total: an announcement that does not fit a word is ignored. -/
def AuditStep.accepted : AuditStep → Nat
  | .announce n => if Tracker.fitsWord n then n else 0
  | _ => 0

lemma AuditStep.accepted_lt (step : AuditStep) : step.accepted < 2 ^ 31 := by
  cases step with
  | announce n =>
    rw [accepted]
    split
    case isTrue h => exact_mod_cast (Tracker.fitsWord_iff.1 h).2
    case isFalse => exact Nat.two_pow_pos 31
  | send | finish | log | cancel => exact Nat.two_pow_pos 31

namespace Tracker

open AuditStep (accepted)

def totalAfter (steps : List AuditStep) : Int := (steps.foldl take {}).total.toInt

lemma toInt_total_take (t : Tracker) (step : AuditStep) :
    (t.take step).total.toInt = (t.total.toInt + step.accepted).bmod (2 ^ 32) := by
  cases step with
  | announce n => exact t.toInt_total_add n
  | send | finish | log | cancel => exact t.toInt_total_eq

/-- The total is the sum of what was accepted, wrapped into a word. -/
lemma totalAfter_eq (steps : List AuditStep) : totalAfter steps = (countIn accepted steps : Int).bmod (2 ^ 32) := by
  induction steps using reverseRecOn with
  | nil => rfl
  | append_singleton steps step ih =>
    rw [totalAfter] at ih ⊢
    rw [foldl_append, foldl_cons, foldl_nil, toInt_total_take, ih, Int.bmod_add_bmod]
    simp

lemma totalAfter_of_lt {steps : List AuditStep} (h : countIn accepted steps < 2 ^ 31) :
    totalAfter steps = countIn accepted steps := by
  rw [totalAfter_eq]
  exact Int.bmod_eq_of_le (by omega) (by omega)

/-- Where the sum leaves the range of a word, the total drops below zero: what is accepted at once
does not lead all the way round. -/
lemma exists_totalAfter_neg {steps : List AuditStep} (h : 2 ^ 31 ≤ countIn accepted steps) :
    ∃ earlier later, earlier <+: later ∧ later <+: steps ∧ 0 ≤ totalAfter earlier ∧ totalAfter later < 0 := by
  induction steps using reverseRecOn with
  | nil => exact absurd h (by decide)
  | append_singleton steps step ih =>
    rcases Nat.lt_or_ge (countIn accepted steps) (2 ^ 31) with hlt | hge
    · have hstep := step.accepted_lt
      refine ⟨steps, _, prefix_append .., prefix_rfl, totalAfter_of_lt hlt ▸ Int.natCast_nonneg _, ?_⟩
      rw [totalAfter_eq, Int.bmod]
      simp only [AuditStep.countIn_append, AuditStep.countIn_cons, AuditStep.countIn_nil] at h ⊢
      omega
    · obtain ⟨earlier, later, hearlier, hlater, hneg⟩ := ih hge
      exact ⟨earlier, later, hearlier, hlater.trans (prefix_append ..), hneg⟩

/-- A total is never negative, never decreases, and is always the sum of what was accepted: each of
these holds exactly if the sum fits a word. -/
theorem totalAfter_tfae (steps : List AuditStep) :
    [∀ taken, taken <+: steps → 0 ≤ totalAfter taken,
      ∀ earlier later, earlier <+: later → later <+: steps → totalAfter earlier ≤ totalAfter later,
      ∀ taken, taken <+: steps → totalAfter taken = countIn accepted taken,
      countIn accepted steps < 2 ^ 31].TFAE := by
  tfae_have 4 → 3 := fun h taken htaken =>
    totalAfter_of_lt ((AuditStep.countIn_le_of_isPrefix accepted htaken).trans_lt h)
  tfae_have 3 → 1 := fun h taken htaken => h taken htaken ▸ Int.natCast_nonneg _
  tfae_have 3 → 2 := by
    intro h earlier later hearlier hlater
    rw [h _ (hearlier.trans hlater), h _ hlater]
    exact_mod_cast AuditStep.countIn_le_of_isPrefix accepted hearlier
  tfae_have 1 → 4 := by
    intro h
    by_contra hge
    obtain ⟨_, later, -, hlater, -, hneg⟩ := exists_totalAfter_neg (Nat.le_of_not_lt hge)
    exact Int.not_lt.2 (h later hlater) hneg
  tfae_have 2 → 4 := by
    intro h
    by_contra hge
    obtain ⟨earlier, later, hearlier, hlater, hnonneg, hneg⟩ := exists_totalAfter_neg (Nat.le_of_not_lt hge)
    exact Int.not_lt.2 (h earlier later hearlier hlater) (hneg.trans_le hnonneg)
  tfae_finish

/-- Each of the two announcements fits a word, their sum does not. -/
theorem totalAfter_wrapped : totalAfter [.announce 2147483647] = 2147483647 ∧
    totalAfter [.announce 2147483647, .announce 1] = -2147483648 := by
  decide

end Tracker

/-- What a step has yet to report: the number of units that are done with it, and its unit. -/
def AuditStep.counted? (t : Tracker) : AuditStep → Option (Int32 × String)
  | .finish unit => some (t.tick.done, unit)
  | _ => none

lemma AuditStep.done_of_counted? {t : Tracker} {step : AuditStep} {c : Int32 × String}
    (h : step.counted? t = some c) : c.1 = (t.take step).done := by
  cases step with
  | finish unit =>
    cases h
    rfl
  | send | announce | log | cancel => cases h

lemma AuditState.tracker_take (s : AuditState) (step : AuditStep) : (s.take step).tracker = s.tracker.take step := by
  cases step with
  | send batch => cases batch <;> rfl
  | announce n => simp only [take, Tracker.take]
  | finish | log | cancel => rfl

lemma AuditState.progress_take (s : AuditState) (step : AuditStep) : (s.take step).progress = s.progress ++
      (step.counted? s.tracker).toList.map fun c => ⟨c.1.toInt, (s.tracker.take step).total.toInt, c.2⟩ := by
  cases step with
  | finish unit => rfl
  | send batch => cases batch <;> exact (append_nil _).symm
  | announce n =>
    rw [take]
    exact (append_nil _).symm
  | log | cancel => exact (append_nil _).symm

/-- An audit that shares a tracker: the steps it has yet to take, and what it has counted and not
yet reported. -/
structure TrackedWorker where
  rest : List AuditStep
  counted : Option (Int32 × String) := none

/-- The next moment of a worker. What it has counted is reported against the units that are
announced by then. -/
def TrackedWorker.advance (w : TrackedWorker) (t : Tracker) : TrackedWorker × Tracker × List ProgressEvent :=
  match w.counted, w.rest with
  | some (done, unit), _ => ({ w with counted := none }, t, [⟨done.toInt, t.total.toInt, unit⟩])
  | none, step :: rest => (⟨rest, step.counted? t⟩, t.take step, [])
  | none, [] => (w, t, [])

def TrackedWorker.IsDone (w : TrackedWorker) : Prop := w.rest = [] ∧ w.counted = none

/-- Audits that share a tracker, with what was reported so far. -/
structure SharedTracking (ι : Type) where
  tracker : Tracker := {}
  events : List ProgressEvent := []
  workers : ι → TrackedWorker

namespace SharedTracking

variable {rest : List AuditStep} {next : AuditStep}

variable {ι : Type}

def start (steps : ι → List AuditStep) : SharedTracking ι where
  workers i := { rest := steps i }

def IsFinished (p : SharedTracking ι) : Prop := ∀ i, (p.workers i).IsDone

section Turns

variable [DecidableEq ι]

def step (p : SharedTracking ι) (i : ι) : SharedTracking ι :=
  let (w, tracker, reported) := (p.workers i).advance p.tracker
  ⟨tracker, p.events ++ reported, Function.update p.workers i w⟩

def run (p : SharedTracking ι) (turns : List ι) : SharedTracking ι := turns.foldl step p

variable {p : SharedTracking ι} {i : ι}

lemma run_append (p : SharedTracking ι) (turns turns' : List ι) :
    p.run (turns ++ turns') = (p.run turns).run turns' := foldl_append

lemma step_of_counted {c : Int32 × String} (h : p.workers i = ⟨rest, some c⟩) :
    p.step i = ⟨p.tracker, p.events ++ [⟨c.1.toInt, p.tracker.total.toInt, c.2⟩],
      Function.update p.workers i ⟨rest, none⟩⟩ := by
  rw [step, h]
  rfl

lemma step_of_cons (h : p.workers i = ⟨next :: rest, none⟩) :
    p.step i = ⟨p.tracker.take next, p.events, Function.update p.workers i ⟨rest, next.counted? p.tracker⟩⟩ := by
  rw [step, h]
  simp only [TrackedWorker.advance, append_nil]

lemma step_of_done (h : p.workers i = ⟨[], none⟩) : p.step i = p := by
  rw [step, h]
  simp only [TrackedWorker.advance, append_nil]
  rw [← h, Function.update_eq_self]

lemma exists_run_eq_take (s : AuditState) (hi : p.workers i = ⟨next :: rest, none⟩) (htracker : p.tracker = s.tracker)
    (hevents : p.events = s.progress) : ∃ turns, p.run turns =
      ⟨(s.take next).tracker, (s.take next).progress, Function.update p.workers i ⟨rest, none⟩⟩ := by
  have hstep := step_of_cons hi
  rw [htracker, hevents] at hstep
  rw [s.tracker_take, s.progress_take]
  rcases hc : next.counted? s.tracker with _ | c <;> rw [hc] at hstep
  · refine ⟨[i], hstep.trans ?_⟩
    rw [Option.toList_none, map_nil, append_nil]
  · -- it counts in one turn and reports in the next
    have hcounted : (p.step i).workers i = ⟨rest, some c⟩ := by
      rw [hstep]
      exact Function.update_self ..
    refine ⟨[i, i], (step_of_counted hcounted).trans ?_⟩
    rw [hstep, Function.update_idem]
    rfl

lemma exists_run_eq_foldl_take (s : AuditState) {taken : List AuditStep} (hi : p.workers i = ⟨taken ++ rest, none⟩)
    (htracker : p.tracker = s.tracker) (hevents : p.events = s.progress) :
    ∃ turns, p.run turns = ⟨(taken.foldl AuditState.take s).tracker, (taken.foldl AuditState.take s).progress,
      Function.update p.workers i ⟨rest, none⟩⟩ := by
  induction taken generalizing p s with
  | nil =>
    refine ⟨[], ?_⟩
    rw [← nil_append rest, ← hi, Function.update_eq_self, foldl_nil, ← htracker, ← hevents]
    rfl
  | cons next taken ih =>
    obtain ⟨first, hfirst⟩ := exists_run_eq_take s hi htracker hevents
    obtain ⟨turns, hturns⟩ := ih (p := p.run first) (s.take next) (by rw [hfirst]; exact Function.update_self ..)
      (by rw [hfirst]) (by rw [hfirst])
    refine ⟨first ++ turns, ?_⟩
    rw [run_append, hturns, hfirst, Function.update_idem]
    rfl

end Turns

/-! ### Every order of turns -/

variable [Fintype ι]

/-- Where audits can be: each has taken some of its steps, the counters are what these amount to,
and no more was counted or reported as done than that. -/
structure Follows (steps taken : ι → List AuditStep) (p : SharedTracking ι) : Prop where
  steps_eq : ∀ i, steps i = taken i ++ (p.workers i).rest
  total_eq : p.tracker.total.toInt = ∑ i, countIn announced (taken i)
  done_eq : p.tracker.done.toInt = ∑ i, countIn finished (taken i)
  counted_le : ∀ i c, (p.workers i).counted = some c → c.1.toInt ≤ p.tracker.done.toInt
  events_le : ∀ e ∈ p.events, e.done ≤ e.total

/-- Audits that can share a tracker: each is paced, and all units together fit its counters. -/
structure CanShare (steps : ι → List AuditStep) : Prop where
  paced : ∀ i, AuditStep.ArePaced (steps i)
  announced_lt : ∑ i, countIn announced (steps i) < 2 ^ 31

variable {steps taken : ι → List AuditStep} {p : SharedTracking ι} {i : ι}

lemma CanShare.sum_le (h : CanShare steps) (htaken : ∀ i, taken i <+: steps i) :
    ∑ i, countIn finished (taken i) ≤ ∑ i, countIn announced (taken i) ∧ ∑ i, countIn announced (taken i) < 2 ^ 31 :=
  ⟨Finset.sum_le_sum fun i _ => h.paced i _ (htaken i),
    Nat.lt_of_le_of_lt (Finset.sum_le_sum fun i _ => AuditStep.countIn_le_of_isPrefix _ (htaken i)) h.announced_lt⟩

lemma Follows.isPrefix (h : p.Follows steps taken) (i : ι) : taken i <+: steps i := ⟨_, (h.steps_eq i).symm⟩

lemma follows_start (steps : ι → List AuditStep) : (start steps).Follows steps fun _ => [] where
  steps_eq _ := rfl
  total_eq := by simp only [AuditStep.countIn_nil, Finset.sum_const_zero]; rfl
  done_eq := by simp only [AuditStep.countIn_nil, Finset.sum_const_zero]; rfl
  counted_le i c hc := by cases hc
  events_le := nofun

variable [DecidableEq ι]

lemma sum_countIn_append (units : AuditStep → Nat) (taken : ι → List AuditStep) (i : ι) (next : AuditStep) :
    ∑ j, countIn units (Function.update taken i (taken i ++ [next]) j) = ∑ j, countIn units (taken j) + units next := by
  have hone (j : ι) : countIn units (Function.update taken i (taken i ++ [next]) j) =
      countIn units (taken j) + if j = i then units next else 0 := by
    rcases eq_or_ne j i with rfl | hj
    · simp
    · simp [hj]
  simp only [hone, Finset.sum_add_distrib, Finset.sum_ite_eq', Finset.mem_univ, if_true]

variable (hsteps : CanShare steps)
include hsteps

section

variable (h : p.Follows steps taken)
include h

lemma Follows.take (hi : p.workers i = ⟨next :: rest, none⟩) :
    (p.step i).Follows steps (Function.update taken i (taken i ++ [next])) := by
  rw [step_of_cons hi]
  have hsteps_eq : ∀ j, steps j = Function.update taken i (taken i ++ [next]) j ++
      (Function.update p.workers i ⟨rest, next.counted? p.tracker⟩ j).rest := by
    intro j
    rcases eq_or_ne j i with rfl | hj
    · simp [h.steps_eq, hi]
    · simp [hj, h.steps_eq]
  have hle := hsteps.sum_le fun j => ⟨_, (hsteps_eq j).symm⟩
  rw [sum_countIn_append, sum_countIn_append] at hle
  have htotal := h.total_eq
  have hdone := h.done_eq
  obtain ⟨htotal', hdone'⟩ := p.tracker.toInt_take next (by omega) (by omega) (by omega) (by omega)
  refine ⟨hsteps_eq, ?_, ?_, ?_, h.events_le⟩
  · rw [sum_countIn_append]
    dsimp only
    omega
  · rw [sum_countIn_append]
    dsimp only
    omega
  · intro j c hc
    dsimp only at hc ⊢
    rcases eq_or_ne j i with rfl | hj
    · rw [Function.update_self] at hc
      exact Int.le_of_eq (congrArg Int32.toInt (AuditStep.done_of_counted? hc))
    · rw [Function.update_of_ne hj] at hc
      have hle := h.counted_le j c hc
      omega

lemma Follows.report {c : Int32 × String} (hi : p.workers i = ⟨rest, some c⟩) : (p.step i).Follows steps taken := by
  rw [step_of_counted hi]
  refine ⟨fun j => ?_, h.total_eq, h.done_eq, fun j c' hc => ?_, ?_⟩
  · rcases eq_or_ne j i with rfl | hj
    · simp [h.steps_eq, hi]
    · simp [hj, h.steps_eq]
  · dsimp only at hc
    rcases eq_or_ne j i with rfl | hj
    · rw [Function.update_self] at hc
      cases hc
    · rw [Function.update_of_ne hj] at hc
      exact h.counted_le j c' hc
  · rw [forall_mem_append, forall_mem_singleton]
    refine ⟨h.events_le, ?_⟩
    -- what is done by now is at most what is announced by now
    have hcounted := h.counted_le i c (by rw [hi])
    have hle := (hsteps.sum_le h.isPrefix).1
    have htotal := h.total_eq
    have hdone := h.done_eq
    dsimp only
    omega

lemma Follows.step (i : ι) : ∃ taken', (p.step i).Follows steps taken' := by
  rcases hi : p.workers i with ⟨_ | ⟨next, rest⟩, _ | c⟩
  · exact ⟨taken, by rwa [step_of_done hi]⟩
  · exact ⟨taken, h.report hsteps hi⟩
  · exact ⟨_, h.take hsteps hi⟩
  · exact ⟨taken, h.report hsteps hi⟩

lemma Follows.run (turns : List ι) : ∃ taken', (p.run turns).Follows steps taken' := by
  induction turns generalizing p taken with
  | nil => exact ⟨taken, h⟩
  | cons i turns ih =>
    obtain ⟨taken', h'⟩ := h.step hsteps i
    exact ih h'

end

/-- In whatever order the workers take turns, no report is of more done units than announced ones.
When all are done, the counters are what the steps amount to. -/
lemma events_le_of_run (turns : List ι) : (∀ e ∈ ((start steps).run turns).events, e.done ≤ e.total) ∧
      (((start steps).run turns).IsFinished →
        ((start steps).run turns).tracker.total.toInt = ∑ i, countIn announced (steps i) ∧
        ((start steps).run turns).tracker.done.toInt = ∑ i, countIn finished (steps i)) := by
  obtain ⟨taken, h⟩ := (follows_start steps).run hsteps turns
  refine ⟨h.events_le, fun hfinished => ?_⟩
  have hall : taken = steps := funext fun i => by rw [h.steps_eq, (hfinished i).1, append_nil]
  exact ⟨hall ▸ h.total_eq, hall ▸ h.done_eq⟩

end SharedTracking

/-! ### Audits -/

/-- Whether an audit is paced and announces at most some number of units, all of which it finishes
if it succeeds. -/
structure AuditTrace.Tracks (t : AuditTrace) (n : Nat) : Prop where
  paced : AuditStep.ArePaced t.steps
  announced_le : countIn announced t.steps ≤ n
  of_success : t.ending = .success →
    countIn announced t.steps = n ∧ countIn finished t.steps = n

lemma AuditTrace.tracks_failure (f : Failure) (d : Disk) (n : Nat) :
    AuditTrace.Tracks { ending := .failure f, disk := d } n := by
  refine ⟨fun taken h => ?_, Nat.zero_le n, nofun⟩
  rw [prefix_nil.1 h]
  exact Nat.le_refl 0

lemma AuditTrace.tracks_of_announce {t : AuditTrace} {before rest : List AuditStep} {n : Nat}
    (hsteps : t.steps = before ++ .announce n :: rest)
    (hbefore : countIn announced before = 0 ∧ countIn finished before = 0)
    (hannounced : countIn announced rest = 0) (hle : countIn finished rest ≤ n)
    (hall : t.ending = .success → countIn finished rest = n) : t.Tracks n := by
  have htotal : countIn announced t.steps = n := by
    simp [hsteps, hbefore, hannounced, announced]
  have hdone : countIn finished t.steps = countIn finished rest := by
    simp [hsteps, hbefore, finished]
  refine ⟨hsteps ▸ AuditStep.arePaced_append_announce hbefore.2 hle, Nat.le_of_eq htotal, fun hsuccess => ?_⟩
  exact ⟨htotal, hdone.trans (hall hsuccess)⟩

lemma Analyzer.Assembly.countIn_checkAll (r : AuditRequest) (limit : Int) (looks : Nat) (ms : List LoadedModule) :
    countIn announced (checkAll r limit looks ms).1 = 0 ∧
      countIn finished (checkAll r limit looks ms).1 ≤ ms.length ∧
      ((checkAll r limit looks ms).2 = .success → countIn finished (checkAll r limit looks ms).1 = ms.length) := by
  induction ms generalizing looks with
  | nil => exact ⟨rfl, Nat.le_refl 0, fun _ => rfl⟩
  | cons m ms ih =>
    obtain ⟨hannounced, hle, hall⟩ := ih (looks + 1)
    rw [checkAll]
    split
    · exact ⟨rfl, Nat.zero_le _, nofun⟩
    · simp only [AuditStep.countIn_append, AuditStep.countIn_cons, (AuditStep.countIn_map_log _).1,
        (AuditStep.countIn_map_log _).2, announced, finished, hannounced, length_cons]
      refine ⟨trivial, by omega, fun hsuccess => ?_⟩
      have hall := hall hsuccess
      omega

lemma Analyzer.Assembly.tracks_audit (r : AuditRequest) (d : Disk) :
    (audit r d).Tracks (Scan.openAll d r.modulePaths).modules.length := by
  rw [audit, Scan.openUnlessCanceled]
  rcases (r.isCanceled 0 && !r.modulePaths.isEmpty) with _ | _
  · rcases r.params.getFor sizeLimit r.platform with f | limit
    · exact AuditTrace.tracks_failure f d _
    · obtain ⟨hannounced, hle, hall⟩ := countIn_checkAll r limit 1 (Scan.openAll d r.modulePaths).modules
      exact AuditTrace.tracks_of_announce (nil_append _).symm ⟨rfl, rfl⟩ hannounced hle hall
  · exact AuditTrace.tracks_failure _ d _

namespace Analyzer.Code

lemma countIn_survey (scan : Scanning) (r : AuditRequest) (looks : Nat) (ms : List LoadedModule) (d : Disk) :
    countIn announced (survey scan r looks ms d).steps = 0 ∧
      countIn finished (survey scan r looks ms d).steps ≤ ms.length ∧
      ((survey scan r looks ms d).isCut = false →
        countIn finished (survey scan r looks ms d).steps = ms.length) := by
  induction ms generalizing looks d with
  | nil => exact ⟨rfl, Nat.le_refl 0, fun _ => rfl⟩
  | cons m ms ih =>
    rw [survey]
    split
    · exact ⟨rfl, Nat.zero_le _, fun hcut => Bool.noConfusion hcut⟩
    · obtain ⟨hannounced, hle, hall⟩ := ih (looks + 1) (examine scan r m d).disk
      simp only [AuditStep.countIn_append, AuditStep.countIn_cons, (AuditStep.countIn_map_log _).1,
        (AuditStep.countIn_map_log _).2, announced, finished, hannounced, length_cons]
      refine ⟨trivial, by omega, fun hcut => ?_⟩
      have hall := hall hcut
      omega

lemma tracks_tryAudit (scan : Scanning) (r : AuditRequest) (d : Disk) :
    (tryAudit scan r d).Tracks (Scan.openAll d r.modulePaths).modules.length := by
  rw [tryAudit, Scan.openUnlessCanceled]
  rcases (r.isCanceled 0 && !r.modulePaths.isEmpty) with _ | _
  · obtain ⟨hannounced, hle, hall⟩ := countIn_survey scan r 1 (Scan.openAll d r.modulePaths).modules d
    have hskip : ∀ step ∈ (Scan.openAll d r.modulePaths).failures.flatMap (fun p => skip p.1 p.2),
        step.announced = 0 ∧ step.finished = 0 := by
      intro step hstep
      obtain ⟨p, -, hstep⟩ := mem_flatMap.1 hstep
      rcases mem_cons.1 hstep with rfl | hstep
      · exact ⟨rfl, rfl⟩
      · obtain rfl := mem_singleton.1 hstep
        exact ⟨rfl, rfl⟩
    refine AuditTrace.tracks_of_announce (append_assoc ..) (AuditStep.countIn_of_forall hskip)
      (by simpa [announced] using hannounced) (by simpa [finished] using hle) fun hsuccess => ?_
    have hcut : (survey scan r 1 (Scan.openAll d r.modulePaths).modules d).isCut = false := by
      by_contra hcut
      rw [Bool.not_eq_false] at hcut
      simp [hcut] at hsuccess
    simpa [finished] using hall hcut
  · exact AuditTrace.tracks_failure _ d _

end Analyzer.Code

namespace Analyzer

lemma length_openAll_le (d : Disk) (paths : List String) : (Scan.openAll d paths).modules.length ≤ paths.length :=
  (length_filterMap_le ..).trans (Nat.le_of_eq (length_map _))

/-- A code audit, whose scans may break down, and an assembly audit, at the start of sharing a
tracker. -/
def sharing (scan : Code.Scanning) (r r' : AuditRequest) (d d' : Disk) : SharedTracking (Fin 2) :=
  .start ![(Code.tryAudit scan r d).steps, (Assembly.audit r' d').steps]

/-- An auditor that runs a code audit and an assembly audit one after the other takes one of the
orders of turns. -/
lemma exists_run_sharing_eq (scan : Code.Scanning) (r r' : AuditRequest) (d d' : Disk) {s : AuditState}
    (htracker : s.tracker = {}) (hprogress : s.progress = []) :
    ∃ turns, ((sharing scan r r' d d').run turns).IsFinished ∧
      ((sharing scan r r' d d').run turns).tracker =
        (((Code.tryAudit scan r d).steps ++ (Assembly.audit r' d').steps).foldl AuditState.take s).tracker ∧
      ((sharing scan r r' d d').run turns).events =
        (((Code.tryAudit scan r d).steps ++ (Assembly.audit r' d').steps).foldl AuditState.take s).progress := by
  have hcode : (sharing scan r r' d d').workers 0 = ⟨(Code.tryAudit scan r d).steps ++ [], none⟩ := by
    rw [append_nil]
    rfl
  obtain ⟨first, hfirst⟩ := SharedTracking.exists_run_eq_foldl_take s hcode htracker.symm hprogress.symm
  have hassembly : ((sharing scan r r' d d').run first).workers 1 = ⟨(Assembly.audit r' d').steps ++ [], none⟩ := by
    rw [hfirst, append_nil]
    rfl
  obtain ⟨second, hsecond⟩ := SharedTracking.exists_run_eq_foldl_take
    ((Code.tryAudit scan r d).steps.foldl AuditState.take s) hassembly (by rw [hfirst]) (by rw [hfirst])
  refine ⟨first ++ second, ?_⟩
  rw [SharedTracking.run_append, hsecond, foldl_append]
  refine ⟨Fin.forall_fin_two.2 ⟨?_, ⟨rfl, rfl⟩⟩, rfl, rfl⟩
  rw [hfirst]
  exact ⟨rfl, rfl⟩

/-- Progress never overruns. A code audit, in which scans may break down, and an assembly audit
share a tracker, over files of which there are fewer than half of what a counter holds. In whatever
order they take turns, nobody is told of more done units than announced ones. When both have
succeeded, everything that was announced is done: each module that could be loaded, once by each
audit. The scan that runs is one of the scans, and the auditor one of the orders. -/
theorem done_le_total (scan : Code.Scanning) (r r' : AuditRequest) (d d' : Disk)
    (hr : r.modulePaths.length < 2 ^ 30) (hr' : r'.modulePaths.length < 2 ^ 30) :
    (∀ turns, (∀ e ∈ ((sharing scan r r' d d').run turns).events, e.done ≤ e.total) ∧
      (((sharing scan r r' d d').run turns).IsFinished → (Code.tryAudit scan r d).ending = .success →
        (Assembly.audit r' d').ending = .success →
        ((sharing scan r r' d d').run turns).tracker.done = ((sharing scan r r' d d').run turns).tracker.total ∧
        ((sharing scan r r' d d').run turns).tracker.total.toInt =
          (Scan.openAll d r.modulePaths).modules.length + (Scan.openAll d' r'.modulePaths).modules.length)) ∧
      Code.tryAudit (Code.scanning r) r d = Code.audit r d ∧
      ∀ s : AuditState, s.tracker = {} → s.progress = [] →
        ∃ turns, ((sharing scan r r' d d').run turns).IsFinished ∧
          ((sharing scan r r' d d').run turns).tracker =
            (((Code.tryAudit scan r d).steps ++ (Assembly.audit r' d').steps).foldl AuditState.take s).tracker ∧
          ((sharing scan r r' d d').run turns).events =
            (((Code.tryAudit scan r d).steps ++ (Assembly.audit r' d').steps).foldl AuditState.take s).progress := by
  have hcode := Code.tracks_tryAudit scan r d
  have hassembly := Assembly.tracks_audit r' d'
  have hshare : SharedTracking.CanShare ![(Code.tryAudit scan r d).steps, (Assembly.audit r' d').steps] := by
    refine ⟨Fin.forall_fin_two.2 ⟨hcode.paced, hassembly.paced⟩, ?_⟩
    have hle := hcode.announced_le
    have hle' := hassembly.announced_le
    have hmodules := length_openAll_le d r.modulePaths
    have hmodules' := length_openAll_le d' r'.modulePaths
    rw [Fin.sum_univ_two]
    dsimp only [Matrix.cons_val_zero, Matrix.cons_val_one]
    omega
  refine ⟨fun turns => ?_, rfl, fun s => exists_run_sharing_eq scan r r' d d'⟩
  obtain ⟨hevents, hcounts⟩ := SharedTracking.events_le_of_run hshare turns
  refine ⟨hevents, fun hfinished hsuccess hsuccess' => ?_⟩
  obtain ⟨htotal, hdone⟩ := hcounts hfinished
  rw [Fin.sum_univ_two] at htotal hdone
  dsimp only [Matrix.cons_val_zero, Matrix.cons_val_one] at htotal hdone
  rw [(hcode.of_success hsuccess).1, (hassembly.of_success hsuccess').1] at htotal
  rw [(hcode.of_success hsuccess).2, (hassembly.of_success hsuccess').2, ← htotal] at hdone
  exact ⟨Int32.toInt_inj.1 hdone, htotal⟩

/-- A request for two files that can be loaded and one that is missing. -/
def sharedRequest : AuditRequest where
  modulePaths := ["lib.bcm", "gone.bcm", "lib.bcm"]
  params := Params.empty.register Assembly.sizeLimit 2048

def brokenScan : Code.Scanning := fun _ => (.error "index out of range", [])

lemma exists_openAll_cutDisk :
    ∃ l f, Scan.openAll Code.cutDisk sharedRequest.modulePaths = ⟨[l, l], [("gone.bcm", f)]⟩ := by
  obtain ⟨l, hload, -⟩ := Code.exists_load_cutDisk
  have hgone : ∃ f, LoadedModule.load Code.cutDisk "gone.bcm" = .error f := ⟨_, rfl⟩
  obtain ⟨f, hgone⟩ := hgone
  refine ⟨l, f, ?_⟩
  simp [Scan.openAll, sharedRequest, hload, hgone, Except.toOption]

theorem done_le_total_sharedRequest :
    sharedRequest.modulePaths.length < 2 ^ 30 ∧
      ∃ turns p, p = (sharing brokenScan sharedRequest sharedRequest Code.cutDisk Code.cutDisk).run turns ∧
        p.IsFinished ∧ p.tracker.done = p.tracker.total ∧ p.tracker.total.toInt = 4 ∧
        ∀ e ∈ p.events, e.done ≤ e.total := by
  have hsize : sharedRequest.modulePaths.length < 2 ^ 30 := by decide
  obtain ⟨l, f, hopened⟩ := exists_openAll_cutDisk
  have hcode : (Code.tryAudit brokenScan sharedRequest Code.cutDisk).ending = .success := by
    rw [Code.tryAudit, Scan.openUnlessCanceled, hopened]
    rfl
  have hassembly : (Assembly.audit sharedRequest Code.cutDisk).ending = .success := by
    rw [Assembly.audit, Scan.openUnlessCanceled, hopened]
    rfl
  obtain ⟨hall, -, hone⟩ :=
    done_le_total brokenScan sharedRequest sharedRequest Code.cutDisk Code.cutDisk hsize hsize
  obtain ⟨turns, hfinished, -⟩ := hone { report := {}, disk := Code.cutDisk } rfl rfl
  obtain ⟨hevents, hcounts⟩ := hall turns
  obtain ⟨hdone, htotal⟩ := hcounts hfinished hcode hassembly
  rw [hopened] at htotal
  exact ⟨hsize, turns, _, rfl, hfinished, hdone, htotal, hevents⟩

end Analyzer

end BytecodeAudit
