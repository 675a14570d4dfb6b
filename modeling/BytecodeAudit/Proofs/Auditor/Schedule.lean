import Mathlib.Data.List.Perm.Basic
import BytecodeAudit.Auditor

/-!
# Audits and their schedules

An audit that nothing cancels is told by what its analyzers do in turn: `Auditor.traces` keeps the
steps of each, on the files that the one before leaves. So the state that an audit ends in is a
function of the traces: it is cancelled if one of them cancels it, and otherwise its report has
grown by what they sent and by a run for each (`adds_foldl_runAnalyzer`).

A schedule is an order in which analyzers that run at the same time take their steps, with the
moments at which somebody cancels the audit. The part that belongs to an analyzer tells how far it
has come (`Analyzer.Reached`). One step of a worker keeps that (`Worker.exists_adds_advance`), and
so does every schedule (`ParallelAudit.Follows.run`).
-/

namespace BytecodeAudit

open List

/-! ### What an analyzer does to an audit -/

def AuditStep.sent : AuditStep → List Issue
  | .send batch => batch
  | _ => []

def AuditStep.cancels : AuditStep → Bool
  | .cancel => true
  | _ => false

def AuditTrace.cancels (t : AuditTrace) : Bool := t.steps.any AuditStep.cancels

lemma AuditTrace.issues_eq (t : AuditTrace) : t.issues = t.steps.flatMap AuditStep.sent := by
  obtain ⟨steps, ending, d⟩ := t
  change (steps.filterMap _).flatten = _
  induction steps with
  | nil => rfl
  | cons step steps ih => cases step <;> simp [AuditStep.sent, ih]

namespace AuditState

/-- Whether some issues and runs lie between two states of an audit: the report has them behind what
it had, and an observer saw them. The flag tells whether the audit was cancelled meanwhile. -/
structure Adds (sent : List Issue) (runs : List ModuleRun) (cancels : Bool) (s s' : AuditState) : Prop where
  report_eq : s'.report = { s.report with issues := s.report.issues ++ sent, runs := s.report.runs ++ runs }
  batches_eq : s'.batches.flatten = s.batches.flatten ++ sent
  runs_eq : s'.runs = s.runs ++ runs
  isCanceled_eq : s'.isCanceled = (s.isCanceled || cancels)

variable {s s' s'' : AuditState} {sent sent' : List Issue} {runs runs' : List ModuleRun} {cancels cancels' : Bool}

lemma Adds.nothing (hreport : s'.report = s.report) (hbatches : s'.batches = s.batches) (hruns : s'.runs = s.runs)
    (hcanceled : s'.isCanceled = s.isCanceled) : Adds [] [] false s s' := by
  refine ⟨?_, ?_, ?_, ?_⟩
  · rw [hreport, append_nil, append_nil]
  · rw [hbatches, append_nil]
  · rw [hruns, append_nil]
  · rw [hcanceled, Bool.or_false]

lemma Adds.trans (h : Adds sent runs cancels s s') (h' : Adds sent' runs' cancels' s' s'') :
    Adds (sent ++ sent') (runs ++ runs') (cancels || cancels') s s'' := by
  refine ⟨?_, ?_, ?_, ?_⟩
  · rw [h'.report_eq, h.report_eq, append_assoc, append_assoc]
  · rw [h'.batches_eq, h.batches_eq, append_assoc]
  · rw [h'.runs_eq, h.runs_eq, append_assoc]
  · rw [h'.isCanceled_eq, h.isCanceled_eq, Bool.or_assoc]

lemma adds_take (s : AuditState) (step : AuditStep) : Adds step.sent [] step.cancels s (s.take step) := by
  cases step with
  | send batch =>
    cases batch with
    | nil => exact .nothing rfl rfl rfl rfl
    | cons i is =>
      refine ⟨?_, ?_, (append_nil _).symm, (Bool.or_false _).symm⟩
      · rw [append_nil]
        rfl
      · exact flatten_append.trans (congrArg _ (append_nil _))
  | announce n =>
    rw [take]
    exact .nothing rfl rfl rfl rfl
  | finish unit =>
    rw [take]
    exact .nothing rfl rfl rfl rfl
  | log r => exact .nothing rfl rfl rfl rfl
  | cancel =>
    refine ⟨?_, (append_nil _).symm, (append_nil _).symm, (Bool.or_true _).symm⟩
    change s.report = { s.report with issues := s.report.issues ++ [], runs := s.report.runs ++ [] }
    rw [append_nil, append_nil]

lemma disk_take (s : AuditState) (step : AuditStep) : (s.take step).disk = s.disk := by
  cases step with
  | send batch => cases batch <;> rfl
  | announce n => rw [take]
  | finish unit => rw [take]
  | log r => rfl
  | cancel => rfl

lemma adds_foldl_take (s : AuditState) (steps : List AuditStep) :
    Adds (steps.flatMap AuditStep.sent) [] (steps.any AuditStep.cancels) s (steps.foldl take s) := by
  induction steps generalizing s with
  | nil => exact .nothing rfl rfl rfl rfl
  | cons step steps ih => exact (s.adds_take step).trans (ih (s.take step))

lemma disk_foldl_take (s : AuditState) (steps : List AuditStep) : (steps.foldl take s).disk = s.disk := by
  induction steps generalizing s with
  | nil => rfl
  | cons step steps ih => exact (ih (s.take step)).trans (s.disk_take step)

lemma adds_close (s : AuditState) (run : ModuleRun) : Adds [] [run] false s (s.close run) := by
  refine ⟨?_, (append_nil _).symm, rfl, (Bool.or_false _).symm⟩
  rw [append_nil]
  rfl

end AuditState

/-! ### What analyzers do one after another -/

def Analyzer.runOf (x : Analyzer) (env : Environment) (trace : AuditTrace) : ModuleRun :=
  { name := x.name, categories := some x.categories, start := env.now, finish := env.now,
    outcome := trace.ending.outcome.1, error := trace.ending.outcome.2 }

namespace Auditor

variable {s : AuditState}

variable (a : Auditor) (env : Environment) (t : AuditTarget) (xs : List Analyzer)

def traceOf (params : Params) (d : Disk) (x : Analyzer) : AuditTrace :=
  x.audit (a.request env t { report := { params }, disk := d }) d

/-- What analyzers do, each on the files that the one before leaves. -/
def traces (params : Params) : List Analyzer → Disk → List (Analyzer × AuditTrace)
  | [], _ => []
  | x :: xs, d =>
    (x, a.traceOf env t params d x) :: traces params xs (a.traceOf env t params d x).disk

@[simp]
lemma map_fst_traces (params : Params) (xs : List Analyzer) (d : Disk) :
    (a.traces env t params xs d).map (·.1) = xs := by
  induction xs generalizing d with
  | nil => rfl
  | cons x xs ih => rw [traces, map_cons, ih]

lemma adds_runAnalyzer (h : s.isCanceled = false) (x : Analyzer) :
    let trace := a.traceOf env t s.report.params s.disk x
    AuditState.Adds trace.issues [x.runOf env trace] trace.cancels s (a.runAnalyzer env t s x) ∧
      (a.runAnalyzer env t s x).disk = trace.disk := by
  intro trace
  have htrace : x.audit (a.request env t s) s.disk = trace := by
    simp only [trace, traceOf, request, h]
  let taken := trace.steps.foldl AuditState.take { s with disk := trace.disk }
  let told := trace.ending.record?.elim taken taken.tell
  have hrun : a.runAnalyzer env t s x = told.close (x.runOf env trace) := by
    rw [runAnalyzer, if_neg (h ▸ Bool.false_ne_true), htrace]
    rfl
  have hfiles : AuditState.Adds [] [] false s { s with disk := trace.disk } := .nothing rfl rfl rfl rfl
  -- how the analyzer ended is told in the log only
  have htold : AuditState.Adds [] [] false taken told ∧ told.disk = taken.disk := by
    simp only [told]
    cases trace.ending.record? <;> exact ⟨.nothing rfl rfl rfl rfl, rfl⟩
  have hadds := hfiles.trans (((AuditState.adds_foldl_take _ trace.steps).trans htold.1).trans
    (told.adds_close (x.runOf env trace)))
  rw [hrun]
  refine ⟨?_, htold.2.trans (AuditState.disk_foldl_take _ trace.steps)⟩
  rw [AuditTrace.issues_eq, AuditTrace.cancels]
  simpa only [nil_append, append_nil, Bool.false_or, Bool.or_false] using hadds

lemma isCanceled_runAnalyzer_of_isCanceled (h : s.isCanceled) (x : Analyzer) :
    (a.runAnalyzer env t s x).isCanceled = true := by
  rw [runAnalyzer, if_pos h]
  exact h

lemma isCanceled_foldl_runAnalyzer_of_isCanceled (h : s.isCanceled) :
    (xs.foldl (a.runAnalyzer env t) s).isCanceled = true := by
  induction xs generalizing s with
  | nil => exact h
  | cons x xs ih => exact ih (a.isCanceled_runAnalyzer_of_isCanceled env t h x)

lemma isCanceled_eq_false_of_foldl_runAnalyzer {xs : List Analyzer}
    (h : (xs.foldl (a.runAnalyzer env t) s).isCanceled = false) : s.isCanceled = false := by
  rw [← Bool.not_eq_true]
  intro hcanceled
  rw [a.isCanceled_foldl_runAnalyzer_of_isCanceled env t xs hcanceled] at h
  contradiction

lemma isCanceled_foldl_runAnalyzer (h : s.isCanceled = false) :
    (xs.foldl (a.runAnalyzer env t) s).isCanceled = (a.traces env t s.report.params xs s.disk).any (·.2.cancels) := by
  induction xs generalizing s with
  | nil => exact h
  | cons x xs ih =>
    obtain ⟨hadds, hdisk⟩ := a.adds_runAnalyzer env t h x
    have hcanceled := hadds.isCanceled_eq
    rw [h, Bool.false_or] at hcanceled
    have hparams : (a.runAnalyzer env t s x).report.params = s.report.params := by rw [hadds.report_eq]
    rw [foldl_cons, traces, any_cons]
    cases hcancels : (a.traceOf env t s.report.params s.disk x).cancels with
    | true => exact a.isCanceled_foldl_runAnalyzer_of_isCanceled env t xs (hcanceled.trans hcancels)
    | false => rw [ih (hcanceled.trans hcancels), hparams, hdisk, Bool.false_or]

lemma adds_foldl_runAnalyzer (h : (xs.foldl (a.runAnalyzer env t) s).isCanceled = false) :
    let traces := a.traces env t s.report.params xs s.disk
    AuditState.Adds (traces.flatMap (·.2.issues)) (traces.map fun p => p.1.runOf env p.2) false s
      (xs.foldl (a.runAnalyzer env t) s) := by
  induction xs generalizing s with
  | nil => exact .nothing rfl rfl rfl rfl
  | cons x xs ih =>
    have hnot : s.isCanceled = false := a.isCanceled_eq_false_of_foldl_runAnalyzer env t h
    have hnext : (a.runAnalyzer env t s x).isCanceled = false := a.isCanceled_eq_false_of_foldl_runAnalyzer env t h
    obtain ⟨hadds, hdisk⟩ := a.adds_runAnalyzer env t hnot x
    have hparams : (a.runAnalyzer env t s x).report.params = s.report.params := by rw [hadds.report_eq]
    have hcancels : (a.traceOf env t s.report.params s.disk x).cancels = false := by
      rw [hadds.isCanceled_eq, hnot, Bool.false_or] at hnext
      exact hnext
    have hrest := ih h
    rw [hparams, hdisk] at hrest
    rw [hcancels] at hadds
    exact hadds.trans hrest

end Auditor

/-! ### Deliveries -/

/-- The batch that a step adds to a report; an empty one adds nothing. -/
def AuditStep.delivered? : AuditStep → Option (List Issue)
  | .send (i :: is) => some (i :: is)
  | _ => none

def AuditTrace.deliveries (t : AuditTrace) : List (List Issue) := t.steps.filterMap AuditStep.delivered?

lemma AuditTrace.flatten_deliveries (t : AuditTrace) : t.deliveries.flatten = t.issues := by
  obtain ⟨steps, ending, d⟩ := t
  rw [issues_eq]
  change (steps.filterMap _).flatten = steps.flatMap _
  induction steps with
  | nil => rfl
  | cons step steps ih =>
    rw [flatMap_cons, ← ih]
    cases step with
    | send batch => cases batch <;> rfl
    | _ => rfl

lemma flatten_flatMap_deliveries (plays : List (Analyzer × AuditTrace)) :
    (plays.flatMap (·.2.deliveries)).flatten = plays.flatMap (·.2.issues) := by
  induction plays with
  | nil => rfl
  | cons play plays ih =>
    rw [flatMap_cons, flatten_append, ih, play.2.flatten_deliveries, flatMap_cons]

namespace AuditState

variable (s : AuditState)

lemma report_take (step : AuditStep) :
    (s.take step).report = { s.report with issues := s.report.issues ++ step.delivered?.toList.flatten } := by
  rw [(s.adds_take step).report_eq, append_nil]
  cases step with
  | send batch => cases batch <;> simp [AuditStep.sent, AuditStep.delivered?]
  | _ => rfl

end AuditState

/-! ### Parts of a tagged list -/

section PartOf

variable {β : Type}

/-- The entries of a list that are tagged with a position, in their order. -/
def partOf (i : Nat) (xs : List (Nat × β)) : List β := (xs.filter (·.1 == i)).map (·.2)

@[simp]
lemma partOf_append (i : Nat) (xs ys : List (Nat × β)) : partOf i (xs ++ ys) = partOf i xs ++ partOf i ys := by
  simp [partOf]

@[simp]
lemma partOf_map_self (i : Nat) (ys : List β) : partOf i (ys.map (i, ·)) = ys := by
  simp [partOf, filter_map, Function.comp_def]

@[simp]
lemma partOf_map_of_ne {i j : Nat} (h : j ≠ i) (ys : List β) : partOf i (ys.map (j, ·)) = [] := by
  simp [partOf, h]

lemma perm_flatMap_partOf {xs : List (Nat × β)} {n : Nat} (h : ∀ x ∈ xs, x.1 < n) :
    (xs.map (·.2)).Perm ((List.range n).flatMap fun i => partOf i xs) := by
  induction n generalizing xs with
  | zero =>
    obtain rfl : xs = [] := eq_nil_iff_forall_not_mem.2 fun x hx => Nat.not_lt_zero _ (h x hx)
    exact .nil
  | succ n ih =>
    -- split off the entries with the greatest tag
    have hlt : ∀ x ∈ xs.filter fun x => !(x.1 == n), x.1 < n := by
      intro x hx
      obtain ⟨hmem, hne⟩ := mem_filter.1 hx
      have hle := h x hmem
      simp only [Bool.not_eq_true', beq_eq_false_iff_ne] at hne
      omega
    have hparts : ((range n).flatMap fun i => partOf i (xs.filter fun x => !(x.1 == n))) =
        (range n).flatMap fun i => partOf i xs := by
      refine flatMap_congr fun i hi => ?_
      have hne : i ≠ n := Nat.ne_of_lt (mem_range.1 hi)
      rw [partOf, partOf, filter_filter]
      congr 1
      refine filter_congr fun x _ => ?_
      by_cases hx : x.1 = i <;> simp [hx, hne]
    rw [range_succ, flatMap_append, flatMap_singleton, ← hparts]
    have hsplit := ((filter_append_perm (fun x => !(x.1 == n)) xs).map (·.2)).symm
    rw [map_append] at hsplit
    simp only [Bool.not_not] at hsplit
    exact hsplit.trans ((ih hlt).append_right _)

lemma flatMap_range_eq {α β : Type} {xs : List α} {f : Nat → List β} {g : α → List β}
    (h : ∀ i x, xs[i]? = some x → f i = g x) : (List.range xs.length).flatMap f = xs.flatMap g := by
  rw [flatMap_def, flatMap_def]
  congr 1
  refine ext_getElem (by simp) fun i hi _ => ?_
  have hlt : i < xs.length := by simpa using hi
  simpa using h i xs[i] (getElem?_eq_getElem hlt)

/-- What a function makes of the members of a list, tagged with their positions from a start on. -/
def tagged {α : Type} (f : α → List β) : Nat → List α → List (Nat × β)
  | _, [] => []
  | k, x :: xs => (f x).map (k, ·) ++ tagged f (k + 1) xs

section Tagged

variable {α : Type} (f : α → List β)

@[simp]
lemma map_snd_tagged (k : Nat) (xs : List α) : (tagged f k xs).map (·.2) = xs.flatMap f := by
  induction xs generalizing k with
  | nil => rfl
  | cons x xs ih => simp [tagged, ih, Function.comp_def]

lemma le_and_lt_of_mem_tagged {k : Nat} {xs : List α} {e : Nat × β} (h : e ∈ tagged f k xs) :
    k ≤ e.1 ∧ e.1 < k + xs.length := by
  induction xs generalizing k with
  | nil => simp [tagged] at h
  | cons x xs ih =>
    rw [length_cons]
    rcases mem_append.1 h with h | h
    · obtain ⟨y, -, rfl⟩ := mem_map.1 h
      omega
    · have := ih h
      omega

lemma partOf_tagged {k i : Nat} {xs : List α} {x : α} (h : xs[i]? = some x) :
    partOf (k + i) (tagged f k xs) = f x := by
  induction xs generalizing k i with
  | nil => simp at h
  | cons y ys ih =>
    rw [tagged, partOf_append]
    cases i with
    | zero =>
      obtain rfl : y = x := by simpa using h
      -- the tags behind are greater
      have hrest : partOf (k + 0) (tagged f (k + 1) ys) = [] := by
        refine map_eq_nil_iff.2 (filter_eq_nil_iff.2 fun e he => ?_)
        have hle := (le_and_lt_of_mem_tagged f he).1
        simp only [beq_iff_eq]
        omega
      rw [hrest, append_nil]
      exact partOf_map_self k (f y)
    | succ i =>
      rw [partOf_map_of_ne (by omega), nil_append, show k + (i + 1) = k + 1 + i by omega]
      exact ih (by simpa using h)

end Tagged

end PartOf

/-! ### One step -/

/-- How far an analyzer can have come with what a report has of it, its batches and runs. The flag
tells whether the audit is cancelled. -/
inductive Analyzer.Reached (x : Analyzer) (trace : AuditTrace) (isCanceled : Bool) :
    Progress → List (List Issue) → List ModuleRun → Prop
  | waiting : Reached x trace isCanceled .waiting [] []
  | working {start : Instant} {taken rest : List AuditStep} (steps_eq : trace.steps = taken ++ rest)
      (canceled_of : taken.any AuditStep.cancels = true → isCanceled = true) :
      Reached x trace isCanceled (.working start rest) (taken.filterMap AuditStep.delivered?) []
  /-- It was to be started in a cancelled audit. -/
  | skipped {now : Instant} (canceled : isCanceled = true) :
      Reached x trace isCanceled .done [] [x.runAt now now AuditEnding.unstarted]
  | done {start finish : Instant} (canceled_of : trace.cancels = true → isCanceled = true) :
      Reached x trace isCanceled .done trace.deliveries [x.runAt start finish trace.ending.outcome]

namespace Analyzer

variable {x : Analyzer} {trace : AuditTrace} {c c' : Bool} {progress : Progress} {sent : List (List Issue)}
  {ended : List ModuleRun}

lemma Reached.mono (h : x.Reached trace c progress sent ended) (hc : c → c') :
    x.Reached trace c' progress sent ended := by
  cases h with
  | waiting => exact .waiting
  | working hsteps hcancels => exact .working hsteps (hc ∘ hcancels)
  | skipped hcanceled => exact .skipped (hc hcanceled)
  | done hcancels => exact .done (hc ∘ hcancels)

end Analyzer

/-- What a step of a worker adds to a report: batches and runs. -/
structure Worker.Adds (w : Worker) (s : AuditState) (sent : List (List Issue)) (ended : List ModuleRun)
    (next : Worker × AuditState) : Prop where
  analyzer_eq : next.1.analyzer = w.analyzer
  trace_eq : next.1.trace = w.trace
  report_eq : next.2.report =
    { s.report with issues := s.report.issues ++ sent.flatten, runs := s.report.runs ++ ended }
  canceled_of : s.isCanceled = true → next.2.isCanceled = true

lemma Worker.adds_nothing {w w' : Worker} {s : AuditState} (hanalyzer : w'.analyzer = w.analyzer)
    (htrace : w'.trace = w.trace) : w.Adds s [] [] (w', s) :=
  ⟨hanalyzer, htrace, by simp, id⟩

/-- One step of a worker: what it adds to the report is what brings the worker further. -/
lemma Worker.exists_adds_advance (w : Worker) (now : Instant) (s : AuditState) {sent : List (List Issue)}
    {ended : List ModuleRun} (h : w.analyzer.Reached w.trace s.isCanceled w.progress sent ended) :
    ∃ sent' ended', w.Adds s sent' ended' (w.advance now s) ∧
      w.analyzer.Reached w.trace (w.advance now s).2.isCanceled (w.advance now s).1.progress (sent ++ sent')
        (ended ++ ended') := by
  obtain ⟨x, trace, progress⟩ := w
  cases h with
  | waiting =>
    by_cases hcanceled : s.isCanceled = true
    · rw [advance, if_pos hcanceled]
      refine ⟨[], [x.runAt now now AuditEnding.unstarted], ⟨rfl, rfl, ?_, id⟩, .skipped hcanceled⟩
      simp [AuditState.close, Report.record]
    · rw [advance, if_neg hcanceled]
      exact ⟨[], [], adds_nothing rfl rfl, .working (nil_append _).symm (by simp)⟩
  | @working start taken rest hsteps hcancels =>
    cases rest with
    | nil =>
      obtain rfl : trace.steps = taken := by rw [hsteps, append_nil]
      refine ⟨[], [x.runAt start now trace.ending.outcome], ⟨rfl, rfl, ?_, ?_⟩, ?_⟩
      · cases hrecord : trace.ending.record? <;>
          simp [advance, hrecord, AuditState.close, AuditState.tell, Report.record]
      · cases hrecord : trace.ending.record? <;> simp [advance, hrecord, AuditState.close, AuditState.tell]
      · rw [append_nil]
        refine .done fun hc => ?_
        cases hrecord : trace.ending.record? <;>
          simpa [advance, hrecord, AuditState.close, AuditState.tell] using hcancels hc
    | cons step rest =>
      have hcanceled := (s.adds_take step).isCanceled_eq
      refine ⟨step.delivered?.toList, [], ⟨rfl, rfl, ?_, ?_⟩, ?_⟩
      · simp [advance, s.report_take]
      · intro h
        simp [advance, hcanceled, h]
      · have hsteps' : trace.steps = (taken ++ [step]) ++ rest := hsteps.trans (by simp)
        have hcancels' : (taken ++ [step]).any AuditStep.cancels → (s.take step).isCanceled := by
          rw [hcanceled, any_append, Bool.or_eq_true, Bool.or_eq_true]
          exact Or.imp hcancels (by simp)
        have hmore : (taken ++ [step]).filterMap AuditStep.delivered? =
            taken.filterMap AuditStep.delivered? ++ step.delivered?.toList := by
          rw [filterMap_append]
          cases h : step.delivered? <;> simp [h]
        exact hmore ▸ .working hsteps' hcancels'
  | skipped hcanceled => exact ⟨[], [], adds_nothing rfl rfl, .skipped hcanceled⟩
  | done hcancels =>
    refine ⟨[], [], adds_nothing rfl rfl, ?_⟩
    rw [append_nil]
    exact .done hcancels

/-! ### Whole schedules -/

/-- Where a parallel audit can be: its report has grown by tagged batches and runs, of which those
of an analyzer brought it as far as it is. -/
structure ParallelAudit.Follows (plays : List (Analyzer × AuditTrace)) (s : AuditState)
    (sent : List (Nat × List Issue)) (ended : List (Nat × ModuleRun)) (p : ParallelAudit) : Prop where
  plays_eq : p.workers.map (fun w => (w.analyzer, w.trace)) = plays
  report_eq : p.state.report =
    { s.report with
      issues := s.report.issues ++ (sent.map (·.2)).flatten, runs := s.report.runs ++ ended.map (·.2) }
  canceled_of : s.isCanceled = true → p.state.isCanceled = true
  sent_lt : ∀ e ∈ sent, e.1 < plays.length
  ended_lt : ∀ e ∈ ended, e.1 < plays.length
  reached : ∀ i (w : Worker), p.workers[i]? = some w →
    w.analyzer.Reached w.trace p.state.isCanceled w.progress (partOf i sent) (partOf i ended)

namespace ParallelAudit

variable {plays : List (Analyzer × AuditTrace)} {s : AuditState} {sent : List (Nat × List Issue)}
  {ended : List (Nat × ModuleRun)} {p : ParallelAudit}

lemma follows_start (s : AuditState) (plays : List (Analyzer × AuditTrace)) :
    (start s plays).Follows plays s [] [] where
  plays_eq := by simp [start, Function.comp_def]
  report_eq := by simp [start]
  canceled_of := id
  sent_lt := by simp
  ended_lt := by simp
  reached i w h := by
    obtain ⟨play, -, rfl⟩ : ∃ play, plays[i]? = some play ∧ { analyzer := play.1, trace := play.2 } = w := by
      simpa [start] using h
    exact .waiting

variable (h : p.Follows plays s sent ended)
include h

/-- A move of a worker is seen in its own batches and runs only. -/
lemma Follows.advance {i : Nat} {w : Worker} (hw : p.workers[i]? = some w)
    (now : Instant) : ∃ sent' ended', Follows plays s sent' ended' (p.step (.advance i now)) := by
  obtain ⟨more, runs, hadds, hreached⟩ := w.exists_adds_advance now p.state (h.reached i w hw)
  have hi : i < p.workers.length := (List.getElem?_eq_some_iff.1 hw).1
  have hlength : p.workers.length = plays.length := by rw [← h.plays_eq, length_map]
  refine ⟨sent ++ more.map (i, ·), ended ++ runs.map (i, ·), ?_⟩
  rw [step, hw]
  refine ⟨?_, ?_, ?_, ?_, ?_, ?_⟩
  · have hself : (p.workers.map fun w => (w.analyzer, w.trace))[i]? = some (w.analyzer, w.trace) := by
      rw [List.getElem?_map, hw, Option.map_some]
    obtain ⟨hlt, hget⟩ := List.getElem?_eq_some_iff.1 hself
    rw [map_set, hadds.analyzer_eq, hadds.trace_eq, ← hget, set_getElem_self]
    exact h.plays_eq
  · simp [hadds.report_eq, h.report_eq, Function.comp_def]
  · exact fun hc => hadds.canceled_of (h.canceled_of hc)
  · intro e he
    rcases mem_append.1 he with he | he
    · exact h.sent_lt e he
    · obtain ⟨batch, -, rfl⟩ := mem_map.1 he
      exact hlength ▸ hi
  · intro e he
    rcases mem_append.1 he with he | he
    · exact h.ended_lt e he
    · obtain ⟨run, -, rfl⟩ := mem_map.1 he
      exact hlength ▸ hi
  · intro j v hv
    by_cases hij : i = j
    · subst hij
      obtain rfl : (w.advance now p.state).1 = v := by simpa [List.getElem?_set_self hi] using hv
      rw [hadds.analyzer_eq, hadds.trace_eq, partOf_append, partOf_append, partOf_map_self, partOf_map_self]
      exact hreached
    · rw [partOf_append, partOf_append, partOf_map_of_ne hij, partOf_map_of_ne hij, append_nil, append_nil]
      exact (h.reached j v (by simpa [List.getElem?_set_ne hij] using hv)).mono hadds.canceled_of

lemma Follows.step (move : Move) : ∃ sent' ended', Follows plays s sent' ended' (p.step move) := by
  cases move with
  | advance i now =>
    cases hw : p.workers[i]? with
    | none =>
      rw [ParallelAudit.step, hw]
      exact ⟨sent, ended, h⟩
    | some w => exact h.advance hw now
  | cancel =>
    exact ⟨sent, ended, h.plays_eq, h.report_eq, fun _ => rfl, h.sent_lt, h.ended_lt,
      fun i w hw => (h.reached i w hw).mono fun _ => rfl⟩

lemma Follows.run (schedule : List Move) : ∃ sent' ended', Follows plays s sent' ended' (p.run schedule) := by
  induction schedule generalizing p sent ended with
  | nil => exact ⟨sent, ended, h⟩
  | cons move schedule ih =>
    obtain ⟨sent', ended', h'⟩ := h.step move
    exact ih h'

end ParallelAudit

end BytecodeAudit
