import RootShell.StreamLocalForwards

/-!
What the table of forwarders says about the forwarders in it: an entry stays until it is
disabled, also when its listener has failed and its accept loop has ended.
-/
namespace ActiveForwards
open ByteLines Interleaving KeyedTables StreamLocalForwards
universe u
variable {P : Type u} [DecidableEq P] {n : Nat} {path : Fin n → P} {s t : Bridge P n} {a : Action P n} {i : Fin n}

def runs : Loop → Bool
  | .accepting | .holding _ => true
  | _ => false

inductive Serving : Listener → Loop → Prop where
  | live {loop : Loop} (running : runs loop = true) : Serving .live loop
  | failed : Serving .failed .ended

structure Filed (path : Fin n → P) (s : Bridge P n) : Prop where
  own : ∀ p j, get s.forwarders p = some j → p = path j ∧ s.enables j = .returned ∧ j ∉ s.dying ∧
    Serving (s.listeners j) (s.loops j)
  dying : ∀ j ∈ s.dying, s.enables j = .returned
  listened : ∀ j, s.enables j = .listened → s.listeners j = .live
  unstarted : ∀ j, s.enables j ≠ .returned → s.loops j = .idle

theorem filed_start (path : Fin n → P) : Filed path (start P n) := by
  constructor <;> simp [start]

structure Beside (i : Fin n) (s t : Bridge P n) : Prop where
  table : ∀ p, get t.forwarders p = get s.forwarders p
  dying : t.dying = s.dying
  enables : ∀ j, j ≠ i → t.enables j = s.enables j
  listeners : ∀ j, j ≠ i → t.listeners j = s.listeners j
  loops : ∀ j, j ≠ i → t.loops j = s.loops j

theorem Filed.beside (filed : Filed path s) (beside : Beside i s t)
    (returned : s.enables i = .returned → t.enables i = .returned ∧
      (Serving (s.listeners i) (s.loops i) → Serving (t.listeners i) (t.loops i)))
    (listened : t.enables i = .listened → t.listeners i = .live)
    (unstarted : t.enables i ≠ .returned → t.loops i = .idle) : Filed path t := by
  refine ⟨fun p j found => ?_, fun j member => ?_, fun j phase => ?_, fun j phase => ?_⟩
  · obtain ⟨named, ended, alive, serving⟩ := filed.own p j ((beside.table p).symm.trans found)
    by_cases same : j = i
    · subst same
      exact ⟨named, (returned ended).1, beside.dying ▸ alive, (returned ended).2 serving⟩
    · rw [beside.enables j same, beside.dying, beside.listeners j same, beside.loops j same]
      exact ⟨named, ended, alive, serving⟩
  · have ended := filed.dying j (beside.dying ▸ member)
    by_cases same : j = i
    · subst same
      exact (returned ended).1
    · exact (beside.enables j same).trans ended
  · by_cases same : j = i
    · exact same ▸ listened (same ▸ phase)
    · exact (beside.listeners j same).trans (filed.listened j (beside.enables j same ▸ phase))
  · by_cases same : j = i
    · exact same ▸ unstarted (same ▸ phase)
    · exact (beside.loops j same).trans (filed.unstarted j (beside.enables j same ▸ phase))

theorem Filed.enable (filed : Filed path s) {next : Enable} (running : s.enables i ≠ .returned)
    (other : next ≠ .listened) : Filed path (s.enable i next) := by
  refine filed.beside (i := i) ⟨fun _ => rfl, rfl, fun j apart => ?_, fun _ _ => rfl, fun _ _ => rfl⟩
    (fun ended => absurd ended running) (fun phase => ?_) (fun _ => filed.unstarted i running)
  · simp [apart]
  · exact absurd (by simpa using phase) other

theorem Filed.check (filed : Filed path s) (phase : s.enables i = .checking) (p : P) : Filed path (s.check p i) := by
  have made : Filed path { s with forwarders := some (s.forwarders.getD ∅) } := by
    refine ⟨fun q j found => filed.own q j ?_, filed.dying, filed.listened, filed.unstarted⟩
    rw [← found]
    cases s.forwarders <;> rfl
  refine made.enable (by simp [phase]) ?_
  split <;> simp

theorem Filed.granted (filed : Filed path s) (phase : s.enables i = .listening) :
    Filed path (s.listen (path i) i) := by
  have running : s.enables i ≠ .returned := by simp [phase]
  refine filed.beside (i := i) ⟨fun _ => rfl, rfl, fun j apart => ?_, fun j apart => ?_, fun _ _ => rfl⟩
    (fun ended => absurd ended running) (fun _ => ?_) (fun _ => filed.unstarted i running)
  · simp [Bridge.listen, apart]
  · simp [Bridge.listen, apart]
  · simp [Bridge.listen]

theorem Filed.publish (filed : Filed path s) (phase : s.enables i = .listened) :
    Filed path (s.publish (path i) i) := by
  have running : s.enables i ≠ .returned := by simp [phase]
  unfold Bridge.publish
  split
  · exact ⟨filed.own, filed.dying, filed.listened, filed.unstarted⟩
  · rename_i table made
    have apart : ∀ j, s.enables j = .returned → j ≠ i := by
      rintro j ended rfl
      exact running ended
    refine ⟨fun p j found => ?_, fun j member => ?_, fun j waiting => ?_, fun j waiting => ?_⟩
    · simp only [Bridge.loop, Bridge.enable, get_insert] at found
      split at found
      · rename_i here
        cases found
        refine ⟨here, by simp, fun member => running (filed.dying i member), ?_⟩
        simp only [Bridge.loop, Bridge.enable, Function.update_self, filed.listened i phase]
        exact .live rfl
      · obtain ⟨named, ended, alive, serving⟩ := filed.own p j (made ▸ found)
        have other := apart j ended
        refine ⟨named, by simp [other, ended], alive, ?_⟩
        simpa [other] using serving
    · have ended := filed.dying j member
      simp [apart j ended, ended]
    · exact filed.listened j (update_other waiting (by simp)).2
    · have other : j ≠ i := by
        rintro rfl
        simp at waiting
      simpa [other] using
        filed.unstarted j (by simpa [other] using waiting)

theorem Filed.disable (filed : Filed path s) {p : P} (found : get s.forwarders p = some i) :
    Filed path { s with forwarders := delete s.forwarders p, dying := i :: s.dying } := by
  obtain ⟨named, ended, _, _⟩ := filed.own p i found
  refine ⟨fun q j kept => ?_, fun j member => ?_, filed.listened, filed.unstarted⟩
  · rw [get_delete] at kept
    split at kept
    · cases kept
    · rename_i other
      obtain ⟨named', ended', alive, serving⟩ := filed.own q j kept
      have apart : j ≠ i := by
        rintro rfl
        exact other (named'.trans named.symm)
      exact ⟨named', ended', by simp [apart, alive], serving⟩
  · rcases List.mem_cons.1 member with rfl | before
    · exact ended
    · exact filed.dying j before

theorem Filed.closeForwarder (filed : Filed path s) (pending : i ∈ s.dying) :
    Filed path (s.closeForwarder (path i) i) := by
  have ended := filed.dying i pending
  refine ⟨fun p j found => ?_, fun j member => filed.dying j (List.mem_of_mem_erase member), fun j phase => ?_,
    filed.unstarted⟩
  · obtain ⟨named, ended, alive, serving⟩ := filed.own p j found
    have other : j ≠ i := by
      rintro rfl
      exact alive pending
    refine ⟨named, ended, fun member => alive (List.mem_of_mem_erase member), ?_⟩
    simpa [Bridge.closeForwarder, Bridge.drop, other] using serving
  · have other : j ≠ i := by
      rintro rfl
      cases ended.symm.trans phase
    simpa [Bridge.closeForwarder, Bridge.drop, other] using filed.listened j phase

theorem Filed.started (filed : Filed path s) (running : runs (s.loops i) = true) : s.enables i = .returned := by
  by_contra waiting
  rw [filed.unstarted i waiting] at running
  cases running

theorem Filed.loop (filed : Filed path s) (before : runs (s.loops i) = true) (next : Loop)
    (after : runs next = true) : Filed path (s.loop i next) := by
  have ended := filed.started before
  refine filed.beside (i := i) ⟨fun _ => rfl, rfl, fun _ _ => rfl, fun _ _ => rfl, fun j apart => ?_⟩
    (fun _ => ⟨ended, fun serving => ?_⟩) (filed.listened i) (fun running => absurd ended running)
  · simp [apart]
  · simp only [Bridge.loop, Function.update_self]
    generalize s.listeners i = listener, s.loops i = loop at serving before ⊢
    cases serving with
    | live => exact .live after
    | failed => cases before

theorem Filed.acceptFail (filed : Filed path s) (phase : s.loops i = .accepting) :
    Filed path ((if s.listeners i = .live then s.drop (path i) i .failed else s).loop i .ended) := by
  have ended := filed.started (i := i) (by simp [phase, runs])
  split
  · rename_i live
    refine filed.beside (i := i) ⟨fun _ => rfl, rfl, fun _ _ => rfl, fun j apart => ?_, fun j apart => ?_⟩
      (fun _ => ⟨ended, fun _ => ?_⟩) (fun waiting => ?_) (fun running => absurd ended running)
    · simp [Bridge.drop, apart]
    · simp [Bridge.drop, apart]
    · simpa [Bridge.drop] using Serving.failed
    · cases ended.symm.trans waiting
  · rename_i closed
    refine filed.beside (i := i) ⟨fun _ => rfl, rfl, fun _ _ => rfl, fun _ _ => rfl, fun j apart => ?_⟩
      (fun _ => ⟨ended, fun serving => ?_⟩) (filed.listened i) (fun running => absurd ended running)
    · simp [apart]
    · rw [phase] at serving
      generalize s.listeners i = listener at serving closed
      cases serving with
      | live => exact absurd rfl closed

theorem Filed.step (filed : Filed path s) (moved : step path s a = some t) : Filed path t := by
  cases step_move moved with
  | begin phase =>
    refine filed.enable (by simp [phase]) ?_
    split <;> simp
  | check phase => exact filed.check phase _
  | granted phase => exact filed.granted phase
  | refused phase => exact filed.enable (by simp [phase]) (by simp)
  | publish phase => exact filed.publish phase
  | disable found => exact filed.disable found
  | closeForwarder pending => exact filed.closeForwarder pending
  | @accept i phase live =>
    have loop := filed.loop (i := i) (by simp [phase, runs]) (.holding s.accepted) rfl
    exact ⟨loop.own, loop.dying, loop.listened, loop.unstarted⟩
  | @register i conn phase =>
    have loop := filed.loop (i := i) (by simp [phase, runs]) .accepting rfl
    exact ⟨loop.own, loop.dying, loop.listened, loop.unstarted⟩
  | acceptFail phase => exact filed.acceptFail phase
  | channelClose | closeConn | closeFlag => exact ⟨filed.own, filed.dying, filed.listened, filed.unstarted⟩
  | sweep phase =>
    refine ⟨nofun, fun j member => ?_, filed.listened, filed.unstarted⟩
    rcases List.mem_append.1 member with before | taken
    · exact filed.dying j before
    · obtain ⟨p, found⟩ := mem_values.1 taken
      exact (filed.own p j found).2.1

theorem serving_runs {listener : Listener} {loop : Loop} (serving : Serving listener loop) :
    runs loop = true ↔ listener ≠ .failed := by
  cases serving with
  | live running => simp [running]
  | failed => simp [runs]

theorem check_refuses (s : Bridge P n) (p : P) (i : Fin n) :
    (s.check p i).enables i = .returned ↔ ∃ j, get s.forwarders p = some j := by
  have reads : (s.forwarders.getD ∅).lookup p = get s.forwarders p := by
    cases s.forwarders <;> rfl
  cases found : get s.forwarders p <;> simp [Bridge.check, reads, found]

/-- When enabling a path is refused as already active, the table has a forwarder for the
    path, and its accept loop is running exactly if its listener has not failed. -/
theorem active_report_live (path : Fin n → P) (as : List (Action P n)) (s t : Bridge P n) (i : Fin n)
    (reached : run (step path) (start P n) as = some s) (checked : step path s (.check i) = some t)
    (refused : t.enables i = .returned) :
    ∃ j, get s.forwarders (path i) = some j ∧ path j = path i ∧
      (runs (s.loops j) = true ↔ s.listeners j ≠ .failed) := by
  have filed : Filed path s :=
    run_invariant (filed_start path) (fun _ _ _ filed moved => Filed.step filed moved) reached
  cases step_move checked with
  | check phase =>
    obtain ⟨j, found⟩ := (check_refuses s (path i) i).1 refused
    obtain ⟨named, _, _, serving⟩ := filed.own _ j found
    exact ⟨j, found, named.symm, serving_runs serving⟩

def twoCalls (_ : Fin 2) : Bytes := text "/tmp/agent.sock"

def enabled (i : Fin n) : List (Action Bytes n) := [Action.begin i, .check i, .listen i true, .publish i]

theorem second_enable_refused :
    ∃ s t, run (step twoCalls) (start Bytes 2) (enabled 0 ++ [.begin 1]) = some s ∧
      step twoCalls s (.check 1) = some t ∧ t.enables 1 = .returned ∧
      ∃ j, get s.forwarders (text "/tmp/agent.sock") = some j ∧ runs (s.loops j) = true := by
  refine ⟨_, _, rfl, rfl, rfl, ?_⟩
  obtain ⟨j, found, _, live⟩ := active_report_live twoCalls (enabled 0 ++ [.begin 1]) _ _ 1 rfl rfl rfl
  refine ⟨j, found, live.2 ?_⟩
  cases found
  decide

/-- A listener that fails leaves its entry, so the path cannot be enabled again. -/
theorem failed_forward_stays :
    ∃ s t, run (step twoCalls) (start Bytes 2) (enabled 0 ++ [.acceptFail 0, .begin 1]) = some s ∧
      step twoCalls s (.check 1) = some t ∧ t.enables 1 = .returned ∧ ∀ j, runs (s.loops j) = false :=
  ⟨_, _, rfl, rfl, rfl, by decide⟩

end ActiveForwards
