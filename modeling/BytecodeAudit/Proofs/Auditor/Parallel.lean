import BytecodeAudit.Proofs.Auditor.Schedule
import BytecodeAudit.Proofs.Report.Fixing

/-!
# Parallel audits

What the report of a parallel audit holds depends on the schedule only in the order of its parts.
For each analyzer it has the batches that were sent before it ended, in their order, and one run
with the outcome that the ending deserves; one that was to be started after a cancellation has a
cancelled run and no batches.
-/

namespace BytecodeAudit

open List

namespace Report

/-- Whether a report has grown by what analyzers did, in some mix: it has their batches and runs
behind what it had, each tagged with the position of its analyzer. The flag tells whether the audit
was cancelled. -/
structure Gathers (plays : List (Analyzer × AuditTrace)) (isCanceled : Bool) (old new : Report)
    (sent : List (Nat × List Issue)) (ended : List (Nat × ModuleRun)) : Prop where
  report_eq : new =
    { old with issues := old.issues ++ (sent.map (·.2)).flatten, runs := old.runs ++ ended.map (·.2) }
  sent_lt : ∀ e ∈ sent, e.1 < plays.length
  ended_lt : ∀ e ∈ ended, e.1 < plays.length
  /-- Every analyzer has one run. Either it was started, and the batches are all that it sent; or
  the audit was cancelled before, and there are none. -/
  each : ∀ i x trace, plays[i]? = some (x, trace) →
    (partOf i sent = trace.deliveries ∧
      ∃ start finish, partOf i ended = [x.runAt start finish trace.ending.outcome]) ∨
    (isCanceled = true ∧ partOf i sent = [] ∧ ∃ now, partOf i ended = [x.runAt now now AuditEnding.unstarted])

variable {plays : List (Analyzer × AuditTrace)} {old new new' : Report} {sent sent' : List (Nat × List Issue)}
  {ended ended' : List (Nat × ModuleRun)}

namespace Gathers

variable (h : Gathers plays false old new sent ended)
include h

lemma each_started {i : Nat} {x : Analyzer}
    {trace : AuditTrace} (hi : plays[i]? = some (x, trace)) : partOf i sent = trace.deliveries ∧
      ∃ start finish, partOf i ended = [x.runAt start finish trace.ending.outcome] :=
  (h.each i x trace hi).resolve_right fun hskipped => Bool.false_ne_true hskipped.1

lemma perm_sent : ((sent.map (·.2)).flatten).Perm (plays.flatMap (·.2.issues)) := by
  have hparts : ((range plays.length).flatMap fun i => partOf i sent) = plays.flatMap (·.2.deliveries) :=
    flatMap_range_eq fun i play hi => (h.each_started hi).1
  rw [← flatten_flatMap_deliveries, ← hparts]
  exact (perm_flatMap_partOf h.sent_lt).flatten

lemma perm_ended : ((ended.map (·.2)).map fun run => (run.name, run.outcome)).Perm
      (plays.map fun play => (play.1.name, play.2.ending.outcome.1)) := by
  have hparts : ((range plays.length).flatMap fun i =>
      (partOf i ended).map fun run => (run.name, run.outcome)) =
      plays.flatMap fun play => [(play.1.name, play.2.ending.outcome.1)] := by
    refine flatMap_range_eq fun i play hi => ?_
    obtain ⟨start, finish, hrun⟩ := (h.each_started hi).2
    rw [hrun]
    rfl
  have hperm := (perm_flatMap_partOf h.ended_lt).map fun run => (run.name, run.outcome)
  rw [map_flatMap, hparts, ← map_eq_flatMap] at hperm
  exact hperm

lemma perm_runs (h' : Gathers plays false old new' sent' ended') :
    (new.runs.map fun run => (run.name, run.outcome)).Perm (new'.runs.map fun run => (run.name, run.outcome)) := by
  rw [h.report_eq, h'.report_eq, map_append, map_append]
  exact (h.perm_ended.trans h'.perm_ended.symm).append_left _

lemma summary_eq (h' : Gathers plays false old new' sent' ended') : new.summary = new'.summary := by
  refine summary_eq_of_perm ?_ ?_ ?_
  · rw [h.report_eq, h'.report_eq]
    exact (h.perm_sent.trans h'.perm_sent.symm).append_left _
  · have hruns := (h.perm_runs h').map (·.2)
    rwa [map_map, map_map] at hruns
  · intro i
    rw [h.report_eq, h'.report_eq]
    rfl

end Gathers

end Report

namespace ParallelAudit.Follows

variable {plays : List (Analyzer × AuditTrace)} {s : AuditState} {sent : List (Nat × List Issue)}
  {ended : List (Nat × ModuleRun)} {p : ParallelAudit} (h : p.Follows plays s sent ended) (hfinished : p.isFinished)
include h hfinished

lemma reached_done {i : Nat} {w : Worker} (hw : p.workers[i]? = some w) :
    w.analyzer.Reached w.trace p.state.isCanceled .done (partOf i sent) (partOf i ended) := by
  have hdone : w.isDone := all_eq_true.1 hfinished w (mem_of_getElem? hw)
  have hreached := h.reached i w hw
  obtain ⟨analyzer, trace, progress⟩ := w
  cases progress with
  | done => exact hreached
  | _ => contradiction

lemma gathers : Report.Gathers plays p.state.isCanceled s.report p.state.report sent ended := by
  refine ⟨h.report_eq, h.sent_lt, h.ended_lt, fun i x trace hi => ?_⟩
  rw [← h.plays_eq, getElem?_map] at hi
  obtain ⟨w, hw, hplay⟩ := Option.map_eq_some_iff.1 hi
  obtain ⟨rfl, rfl⟩ : w.analyzer = x ∧ w.trace = trace := by simpa using hplay
  have hreached := h.reached_done hfinished hw
  generalize partOf i sent = own, partOf i ended = runs at hreached ⊢
  cases hreached with
  | skipped hcanceled => exact .inr ⟨hcanceled, rfl, _, rfl⟩
  | done _ => exact .inl ⟨rfl, _, _, rfl⟩

lemma not_canceled (hnot : p.state.isCanceled = false) : s.isCanceled = false ∧ plays.any (·.2.cancels) = false := by
  have hfalse {b : Bool} (hb : b = true → p.state.isCanceled = true) : b = false := by
    cases b with
    | false => rfl
    | true => exact hnot ▸ (hb rfl).symm
  refine ⟨hfalse h.canceled_of, hfalse fun hany => ?_⟩
  rw [← h.plays_eq, any_map, any_eq_true] at hany
  obtain ⟨w, hmem, hcancels⟩ := hany
  obtain ⟨i, hw⟩ := mem_iff_getElem?.1 hmem
  have hreached := h.reached_done hfinished hw
  generalize partOf i sent = own, partOf i ended = runs at hreached
  cases hreached with
  | skipped hcanceled => exact hcanceled
  | done hcanceled => exact hcanceled hcancels

end ParallelAudit.Follows

namespace Auditor

variable (a : Auditor) (env : Environment) (t : AuditTarget)

lemma gathers_foldl_runAnalyzer (xs : List Analyzer) {s : AuditState}
    (h : (xs.foldl (a.runAnalyzer env t) s).isCanceled = false) :
    let plays := a.traces env t s.report.params xs s.disk
    Report.Gathers plays false s.report (xs.foldl (a.runAnalyzer env t) s).report
      (tagged (·.2.deliveries) 0 plays) (tagged (fun play => [play.1.runOf env play.2]) 0 plays) := by
  intro plays
  refine ⟨?_, ?_, ?_, ?_⟩
  · rw [(a.adds_foldl_runAnalyzer env t xs h).report_eq, map_snd_tagged, map_snd_tagged, ← map_eq_flatMap,
      flatten_flatMap_deliveries]
  · intro e he
    simpa using (le_and_lt_of_mem_tagged _ he).2
  · intro e he
    simpa using (le_and_lt_of_mem_tagged _ he).2
  · intro i x trace hi
    refine .inl ⟨?_, env.now, env.now, ?_⟩
    · simpa using partOf_tagged (k := 0) (fun play : Analyzer × AuditTrace => play.2.deliveries) hi
    · have hrun := partOf_tagged (k := 0) (fun play : Analyzer × AuditTrace => [play.1.runOf env play.2]) hi
      rw [Nat.zero_add] at hrun
      exact hrun

end Auditor

/-! ### Outcomes -/

/-- Whether an outcome is the one that an ending deserves: cancelled after a cancellation or a
deadline, and failed after any other cause or a breakdown. -/
inductive AuditEnding.Deserves : AuditEnding → Outcome → Prop
  | success : Deserves .success Outcome.success
  | cancelled {cause stop : Failure} (mem : stop ∈ cause.chain)
      (isStop : stop = .canceled ∨ stop = .deadlineExceeded) : Deserves (.failure cause) Outcome.cancelled
  | failure {cause : Failure} (canceled : .canceled ∉ cause.chain) (deadline : .deadlineExceeded ∉ cause.chain) :
      Deserves (.failure cause) Outcome.failure
  | breakdown {text : String} : Deserves (.breakdown text) Outcome.failure

lemma AuditEnding.deserves_outcome (ending : AuditEnding) : ending.Deserves ending.outcome.1 := by
  cases ending with
  | success => exact .success
  | failure cause =>
    rw [outcome]
    by_cases hstop : cause.isStop = true
    · rw [if_pos hstop]
      obtain ⟨f, hmem, hf⟩ := any_eq_true.1 hstop
      refine .cancelled hmem ?_
      cases f <;> first | contradiction | exact .inl rfl | exact .inr rfl
    · rw [if_neg hstop]
      have hnone : ∀ f ∈ cause.chain, f ≠ .canceled ∧ f ≠ .deadlineExceeded := by
        intro f hmem
        refine ⟨?_, ?_⟩ <;> rintro rfl <;> exact hstop (any_eq_true.2 ⟨_, hmem, rfl⟩)
      exact .failure (fun h => (hnone _ h).1 rfl) fun h => (hnone _ h).2 rfl
  | breakdown text => exact .breakdown

namespace ParallelAudit

/-- Every schedule that comes to an end gathers everything that its analyzers do, and without a
cancellation it leaves what the sequential audit leaves. -/
theorem gathers_run_of_isFinished (s : AuditState) (plays : List (Analyzer × AuditTrace)) (schedule : List Move)
    (hfinished : ((start s plays).run schedule).isFinished = true) :
    let p := (start s plays).run schedule
    ∃ sent ended,
      Report.Gathers plays p.state.isCanceled s.report p.state.report sent ended ∧
      (∀ play ∈ plays, play.2.ending.Deserves play.2.ending.outcome.1) ∧
      ∀ (a : Auditor) (env : Environment) (t : AuditTarget) (report : Report) (isCanceled : Bool) (d : Disk),
        s = Auditor.opening t report isCanceled d →
        plays = a.traces env t s.report.params (a.selected t.categories) d →
        p.state.isCanceled = false →
        let q := a.runSelected env t report isCanceled d
        q.isCanceled = false ∧
        ∃ sent' ended',
          Report.Gathers plays false s.report q.report sent' ended' ∧
          (∀ i < plays.length, partOf i sent = partOf i sent') ∧
          (p.state.report.runs.map fun run => (run.name, run.outcome)).Perm
            (q.report.runs.map fun run => (run.name, run.outcome)) ∧
          p.state.report.summary = q.report.summary := by
  intro p
  obtain ⟨sent, ended, hfollows⟩ := (follows_start s plays).run schedule
  have hgathers := hfollows.gathers hfinished
  refine ⟨sent, ended, hgathers, fun play _ => play.2.ending.deserves_outcome, ?_⟩
  intro a env t report isCanceled d hs hplays hnot q
  obtain ⟨hstart, hcancels⟩ := hfollows.not_canceled hfinished hnot
  have hq : q = (a.selected t.categories).foldl (a.runAnalyzer env t) s := by rw [hs]; rfl
  have hplays' : plays = a.traces env t s.report.params (a.selected t.categories) s.disk := by
    rw [hplays, hs]
    rfl
  have hqnot : ((a.selected t.categories).foldl (a.runAnalyzer env t) s).isCanceled = false := by
    rw [a.isCanceled_foldl_runAnalyzer env t _ hstart, ← hplays', hcancels]
  have hsequential := a.gathers_foldl_runAnalyzer env t (a.selected t.categories) hqnot
  rw [← hplays', ← hq] at hsequential
  rw [← hq] at hqnot
  rw [show ((start s plays).run schedule).state.isCanceled = false from hnot] at hgathers
  refine ⟨hqnot, _, _, hsequential, ?_, hgathers.perm_runs hsequential, hgathers.summary_eq hsequential⟩
  intro i hi
  have hplay : plays[i]? = some (plays[i].1, plays[i].2) := List.getElem?_eq_getElem hi
  rw [(hgathers.each_started hplay).1, (hsequential.each_started hplay).1]

/-- An analyzer that breaks down after it has sent two batches. -/
def brokenScript : Script where
  name := "code"
  categories := [.code]
  batches := [[{ category := .code, description := "first" }], [{ category := .code, description := "second" }]]
  ending := .breakdown "out of memory"

def failingScript : Script where
  name := "settings"
  categories := [.settings]
  batches := [[{ category := .settings, description := "third", severity := .major }]]
  ending := .failure (.plain "no settings")

def brokenAndFailing : Auditor where
  config := {}
  analyzers := [brokenScript.analyzer, failingScript.analyzer]
  registry := {}
  rules := RuleSet.empty
  cache := Cache.disabled

def mixedAudit : ParallelAudit :=
  (start (Auditor.opening {} {} false {}) (brokenAndFailing.traces {} {} {} brokenAndFailing.analyzers {})).run
    ([1, 0, 0, 1, 1, 0, 0].map fun i => .advance i Instant.unset)

theorem gathers_mixedAudit :
    mixedAudit.isFinished = true ∧ mixedAudit.state.isCanceled = false ∧
    mixedAudit.state.report.issues.map (·.description) = ["first", "third", "second"] ∧
    mixedAudit.state.report.runs.map (·.error) = ["no settings", "panic: out of memory"] ∧
    mixedAudit.state.report.summary = (brokenAndFailing.runSelected {} {} {} false {}).report.summary := by
  have hfinished : mixedAudit.isFinished = true := rfl
  have hnot : mixedAudit.state.isCanceled = false := rfl
  obtain ⟨sent, ended, -, -, hsame⟩ := gathers_run_of_isFinished _ _ _ hfinished
  have hplays : brokenAndFailing.traces {} {} {} brokenAndFailing.analyzers {} =
      brokenAndFailing.traces {} {} (Auditor.opening {} {} false {}).report.params (brokenAndFailing.selected [])
        {} := rfl
  obtain ⟨-, -, -, -, -, -, hsummary⟩ := hsame brokenAndFailing {} {} {} false {} rfl hplays hnot
  exact ⟨hfinished, hnot, rfl, rfl, hsummary⟩

end ParallelAudit

end BytecodeAudit
