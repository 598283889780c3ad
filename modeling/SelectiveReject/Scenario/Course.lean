import SelectiveReject.Scenario.Encounter

/-!
# The course of an encounter

Besides its log, a run of incidents shows which datagrams left the machine and how its waits ended: a
wait ends in the step that finds a datagram, or when its timer runs out.

A machine is left alone when nothing arrives any more and no timer runs out but that of a wait.  Then
there is little that can happen:

```
silence 0       = step
silence (n + 1) = silence n, timer, step, step
```
-/

namespace SelectiveReject.Scenario.Encounter

variable {σ : Type} [Machine σ] {α : Type}

/-- The machine does nothing before something arrives or its timer runs out. -/
def waiting (e : Encounter σ) : Bool :=
  match Machine.step e.station.machine [] with
  | .wait => !e.station.ended
  | _ => false

/-- How a wait ends in an incident, if one does. -/
def outcome (e : Encounter σ) : Incident → List Wait
  | .arrival _ => []
  | .step => if e.waiting then [.ready] else []
  | .timer => if e.waiting then [.timeout] else []

/-- The datagrams that leave in an incident. -/
def leaving (link : Link) (e : Encounter σ) : Incident → List Departure
  | .step => ((e.station.advance link e.faults).map fun (_, _, left) => left).getD []
  | .arrival _ | .timer => []

/-- What a run of incidents shows, one incident after the other. -/
def along (link : Link) (see : Encounter σ → Incident → List α) (e : Encounter σ) :
    List Incident → List α
  | [] => []
  | incident :: rest =>
      match e.act link incident with
      | none => []
      | some next => see e incident ++ next.along link see rest

/-- How the waits of a run have ended. -/
def waits (link : Link) (e : Encounter σ) : List Incident → List Wait := e.along link outcome

/-- The datagrams that have left in a run. -/
def departures (link : Link) (e : Encounter σ) : List Incident → List Departure :=
  e.along link (leaving link)

/-- Nothing arrives in the incident, and no timer runs out but that of a wait. -/
def Quiet (e : Encounter σ) : Incident → Prop
  | .arrival _ => False
  | .step => True
  | .timer => e.waiting = true

/-- The machine is left alone in a run. -/
def LeftAlone (link : Link) (e : Encounter σ) : List Incident → Prop
  | [] => True
  | incident :: rest =>
      e.Quiet incident ∧ ∀ next, e.act link incident = some next → next.LeftAlone link rest

/-- A wait is begun; then it times out, something is sent, and the next is begun, so many times. -/
def silence (tries : Nat) : List Incident :=
  .step :: (List.replicate tries [Incident.timer, .step, .step]).flatten

theorem silence_succ (tries : Nat) :
    silence (tries + 1) = silence tries ++ [.timer, .step, .step] := by
  rw [silence, List.replicate_succ', List.flatten_append]
  rfl

theorem run_append {link : Link} {e now : Encounter σ} {first : List Incident}
    (h : e.run link first = some now) (rest : List Incident) :
    e.run link (first ++ rest) = now.run link rest := by
  induction first generalizing e with
  | nil =>
      cases h
      rfl
  | cons incident first ih =>
      rw [run, Option.bind_eq_some_iff] at h
      obtain ⟨next, hact, hrun⟩ := h
      rw [List.cons_append, run, hact, Option.bind_some]
      exact ih hrun

theorem along_append {link : Link} {see : Encounter σ → Incident → List α} {e now : Encounter σ}
    {first : List Incident} (h : e.run link first = some now) (rest : List Incident) :
    e.along link see (first ++ rest) = e.along link see first ++ now.along link see rest := by
  induction first generalizing e with
  | nil =>
      cases h
      rfl
  | cons incident first ih =>
      rw [run, Option.bind_eq_some_iff] at h
      obtain ⟨next, hact, hrun⟩ := h
      simp only [List.cons_append, along, hact, ih hrun, List.append_assoc]

/-- What each incident keeps, together with all that has been shown, a run keeps. -/
theorem run_keeps {link : Link} {see : Encounter σ → Incident → List α}
    (Inv : Encounter σ → List α → Prop)
    (hact : ∀ e seen incident next, Inv e seen → e.act link incident = some next →
      Inv next (seen ++ see e incident))
    {e now : Encounter σ} {seen : List α} {incidents : List Incident} (hinv : Inv e seen)
    (hrun : e.run link incidents = some now) :
    Inv now (seen ++ e.along link see incidents) := by
  induction incidents generalizing e seen with
  | nil =>
      cases hrun
      rw [along, List.append_nil]
      exact hinv
  | cons incident rest ih =>
      rw [run, Option.bind_eq_some_iff] at hrun
      obtain ⟨next, hnext, hrest⟩ := hrun
      rw [along, hnext, ← List.append_assoc]
      exact ih (hact _ _ _ _ hinv hnext) hrest

end SelectiveReject.Scenario.Encounter
