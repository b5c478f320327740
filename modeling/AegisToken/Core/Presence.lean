/-
  User presence (aegis-core presence.rs): the debounced button, and the gate that only listens
  while a FIDO operation waits for it.
  The controller is driven by sampled levels and a clock in milliseconds, a natural number below
  `2 ^ 64`. Arming remembers whether the button is down; then a release has to come first.
  The gate drops the samples of other execution states, so the controller arms on the level it
  last saw, not on the level that was last sampled. A press that began in another state is new to
  it: `held_press_confirms`. Where the two levels agree at every arming, a button that is held
  since before it never confirms: `press_is_fresh`.
-/
import AegisToken.Lib.Bytes
import AegisToken.Lib.History

namespace AegisToken
open History

/-- Runtime execution state (state.rs). -/
inductive ExecutionState where
  | boot
  | active
  | fidoWaitPresence
  | fidoOperation
  | management
  | firmwareUpdate
  | recovery
  | locked
deriving DecidableEq, Repr

def bootselAllowedAsPresence (state : ExecutionState) : Bool := state = .fidoWaitPresence

inductive PresenceError where
  | timeout
  | cancelled
  | alreadyArmed
  | notArmed
deriving DecidableEq, Repr

/-- Debounce and timeout parameters, in milliseconds. -/
structure PresenceTiming where
  debounceMs : UInt16
  timeoutMs : UInt16

inductive PresenceOutcome where
  | confirmed (operationId : UInt32)
  | timeout (operationId : UInt32)
deriving DecidableEq, Repr

/-! ## The controller -/

structure Armed where
  operationId : UInt32
  deadlineMs : Nat
deriving DecidableEq

structure PresenceController where
  timing : PresenceTiming
  armed : Option Armed
  rawPressed : Bool
  debouncedPressed : Bool
  rawChangeMs : Nat
  awaitingRelease : Bool

namespace PresenceController

def new (timing : PresenceTiming) : PresenceController := ⟨timing, none, false, false, 0, false⟩

/-- Arm presence for an operation. The clock has 64 bits, and the sum wraps. -/
def arm (c : PresenceController) (operationId : UInt32) (nowMs : Nat) :
    Except PresenceError Unit × PresenceController :=
  if c.armed.isSome then (.error .alreadyArmed, c)
  else
    (.ok (), { c with
      armed := some ⟨operationId, (nowMs + c.timing.timeoutMs.toNat) % 2 ^ 64⟩
      awaitingRelease := c.rawPressed || c.debouncedPressed })

def disarm (c : PresenceController) : PresenceController :=
  { c with armed := none, awaitingRelease := false }

/-- The raw level has been stable for the debounce window. -/
def settled (c : PresenceController) (nowMs : Nat) : Bool :=
  c.rawPressed ≠ c.debouncedPressed ∧ c.timing.debounceMs.toNat ≤ nowMs - c.rawChangeMs

/-- The end of `settle`: the deadline of the armed operation. -/
def checkDeadline (c : PresenceController) (nowMs : Nat) :
    Option PresenceOutcome × PresenceController :=
  match c.armed with
  | some armed =>
    if armed.deadlineMs ≤ nowMs then
      (some (.timeout armed.operationId), { c with armed := none, awaitingRelease := false })
    else (none, c)
  | none => (none, c)

/-- Promote the raw level once it is stable, and check the deadline. -/
def settle (c : PresenceController) (nowMs : Nat) : Option PresenceOutcome × PresenceController :=
  if c.settled nowMs then
    let c := { c with debouncedPressed := c.rawPressed }
    if c.debouncedPressed then
      if c.awaitingRelease then c.checkDeadline nowMs
      else
        match c.armed with
        | some armed => (some (.confirmed armed.operationId), { c with armed := none })
        | none => c.checkDeadline nowMs
    else { c with awaitingRelease := false }.checkDeadline nowMs
  else c.checkDeadline nowMs

def sample (c : PresenceController) (pressed : Bool) (nowMs : Nat) : PresenceController :=
  if pressed ≠ c.rawPressed then { c with rawPressed := pressed, rawChangeMs := nowMs } else c

def update (c : PresenceController) (pressed : Bool) (nowMs : Nat) :
    Option PresenceOutcome × PresenceController :=
  (c.sample pressed nowMs).settle nowMs

def poll (c : PresenceController) (nowMs : Nat) : Option PresenceOutcome × PresenceController :=
  c.settle nowMs

/-- The controller with the raw level promoted, if it is stable. A debounced release ends the
  wait for one. -/
def promoted (c : PresenceController) (nowMs : Nat) : PresenceController :=
  if c.settled nowMs then
    { c with
      debouncedPressed := c.rawPressed
      awaitingRelease := c.awaitingRelease && c.rawPressed }
  else c

/-- A press that is debounced now and that no release has to come before. -/
def confirms (c : PresenceController) (nowMs : Nat) : Bool :=
  c.settled nowMs && c.rawPressed && !c.awaitingRelease

section
variable (c : PresenceController) (nowMs : Nat)

@[simp] theorem promoted_armed : (c.promoted nowMs).armed = c.armed := by
  unfold promoted
  split <;> rfl

@[simp] theorem promoted_rawPressed : (c.promoted nowMs).rawPressed = c.rawPressed := by
  unfold promoted
  split <;> rfl

/-- While the button is down the wait goes on. -/
theorem promoted_awaiting (hr : c.rawPressed = true) :
    (c.promoted nowMs).awaitingRelease = c.awaitingRelease := by
  unfold promoted
  split
  · simp [hr]
  · rfl

theorem sample_armed (pressed : Bool) : (c.sample pressed nowMs).armed = c.armed := by
  unfold sample
  split <;> rfl

theorem sample_rawPressed (pressed : Bool) : (c.sample pressed nowMs).rawPressed = pressed := by
  unfold sample
  split
  · rfl
  · rename_i h
    exact (not_not.mp h).symm

end

/-- Settling as a decision about the armed operation: a press confirms it, before the deadline is
  looked at. -/
theorem settle_eq (c : PresenceController) (nowMs : Nat) :
    c.settle nowMs = match c.armed with
      | some armed =>
        if c.confirms nowMs then
          (some (.confirmed armed.operationId), { c.promoted nowMs with armed := none })
        else if armed.deadlineMs ≤ nowMs then
          (some (.timeout armed.operationId),
            { c.promoted nowMs with armed := none, awaitingRelease := false })
        else (none, c.promoted nowMs)
      | none => (none, c.promoted nowMs) := by
  obtain ⟨timing, armed, raw, debounced, changed, awaiting⟩ := c
  unfold settle confirms promoted checkDeadline
  cases settled ⟨timing, armed, raw, debounced, changed, awaiting⟩ nowMs with
  | false => cases armed <;> simp
  | true => cases raw <;> cases awaiting <;> cases armed <;> simp

end PresenceController

/-! ## The gate -/

/-- The contextual gate: its controller. -/
structure ContextualPresence where
  controller : PresenceController

namespace ContextualPresence

def new (timing : PresenceTiming) : ContextualPresence := ⟨.new timing⟩

def arm (p : ContextualPresence) (state : ExecutionState) (operationId : UInt32) (nowMs : Nat) :
    Except PresenceError Unit × ContextualPresence :=
  if !bootselAllowedAsPresence state then (.error .notArmed, p)
  else
    let (result, controller) := p.controller.arm operationId nowMs
    (result, ⟨controller⟩)

def disarm (p : ContextualPresence) : ContextualPresence := ⟨p.controller.disarm⟩

def update (p : ContextualPresence) (state : ExecutionState) (pressed : Bool) (nowMs : Nat) :
    Option PresenceOutcome × ContextualPresence :=
  if !bootselAllowedAsPresence state then (none, p.disarm)
  else
    let (outcome, controller) := p.controller.update pressed nowMs
    (outcome, ⟨controller⟩)

def poll (p : ContextualPresence) (state : ExecutionState) (nowMs : Nat) :
    Option PresenceOutcome × ContextualPresence :=
  if !bootselAllowedAsPresence state then (none, p.disarm)
  else
    let (outcome, controller) := p.controller.poll nowMs
    (outcome, ⟨controller⟩)

/-! ## The machine -/

inductive Event where
  | arm (state : ExecutionState) (operationId : UInt32) (nowMs : Nat)
  | disarm
  | update (state : ExecutionState) (pressed : Bool) (nowMs : Nat)
  | poll (state : ExecutionState) (nowMs : Nat)

inductive Answer where
  | armed (result : Except PresenceError Unit)
  | outcome (outcome : Option PresenceOutcome)

def step (p : ContextualPresence) : Event → Answer × ContextualPresence
  | .arm state operationId nowMs =>
    (.armed (p.arm state operationId nowMs).1, (p.arm state operationId nowMs).2)
  | .disarm => (.outcome none, p.disarm)
  | .update state pressed nowMs =>
    (.outcome (p.update state pressed nowMs).1, (p.update state pressed nowMs).2)
  | .poll state nowMs => (.outcome (p.poll state nowMs).1, (p.poll state nowMs).2)

abbrev Log := Entry ContextualPresence Event Answer

/-- The entry samples this level, in whatever execution state. -/
def Samples (pressed : Bool) (e : Log) : Prop := ∃ state nowMs, e.event = .update state pressed nowMs

def Arms (operationId : UInt32) (e : Log) : Prop :=
  (∃ state nowMs, e.event = .arm state operationId nowMs) ∧ e.answer = .armed (.ok ())

def LastPressed : List Log → Prop := Since (fun e _ => Samples true e) (Samples false)

/-- A confirmed operation was armed by the latest arming. If the button was down then, it was
  released in between. -/
def PressIsFresh (e : Log) (past : List Log) : Prop :=
  ∀ operationId, e.answer = .outcome (some (.confirmed operationId)) →
    ∃ after armed before, past = after ++ armed :: before ∧ Arms operationId armed ∧
      (∀ x ∈ after, ∀ other, ¬Arms other x) ∧
      (LastPressed before → ∃ x ∈ after, Samples false x)

/-- The controller arms on the level that was last sampled, if that is a press. `arm` also waits
  if only the debounced level is down, but then the next poll may end the wait. -/
def ArmsOnLevel (e : Log) (past : List Log) : Prop :=
  ∀ operationId, Arms operationId e → LastPressed past → e.before.controller.rawPressed = true

/-! ## One step -/

/-- The button is down and the controller knows that it has been since it was armed. -/
def Waits (c : PresenceController) : Prop := c.awaitingRelease = true ∧ c.rawPressed = true

/-- The armed operation is that of the latest arming. If the button was down then, it was released
  since, or the controller waits for it. -/
def ArmedInv (p : ContextualPresence) (past : List Log) : Prop :=
  ∀ armed ∈ p.controller.armed, ∃ after arming before, past = after ++ arming :: before ∧
    Arms armed.operationId arming ∧ (∀ x ∈ after, ∀ other, ¬Arms other x) ∧
    (LastPressed before → (∃ x ∈ after, Samples false x) ∨ Waits p.controller)

/-- What settling does to an armed operation: it is confirmed by a press, which a controller that
  waits does not do, or it is dropped, or it stays and a controller that waits still waits. -/
theorem settle_cases (c : PresenceController) (nowMs : Nat) :
    (∀ operationId, (c.settle nowMs).1 = some (.confirmed operationId) → c.rawPressed = true ∧
      ¬Waits c ∧ ∃ armed ∈ c.armed, armed.operationId = operationId) ∧
    ∀ armed ∈ (c.settle nowMs).2.armed, armed ∈ c.armed ∧ (Waits c → Waits (c.settle nowMs).2) := by
  have hwt : Waits c → Waits (c.promoted nowMs) := by
    rintro ⟨ha, hr⟩
    exact ⟨(c.promoted_awaiting nowMs hr).trans ha, by simpa using hr⟩
  rw [c.settle_eq]
  cases har : c.armed with
  | none =>
    refine ⟨nofun, fun armed hm => ?_⟩
    rw [PresenceController.promoted_armed, har] at hm
    cases hm
  | some armed =>
    dsimp only
    split
    · rename_i hcn
      simp only [PresenceController.confirms, Bool.and_eq_true, Bool.not_eq_true'] at hcn
      refine ⟨fun id hid => ?_, nofun⟩
      cases hid
      refine ⟨hcn.1.2, fun hw => ?_, armed, rfl, rfl⟩
      cases hcn.2.symm.trans hw.1
    · split
      · exact ⟨nofun, nofun⟩
      · refine ⟨nofun, fun armed' hm => ⟨?_, hwt⟩⟩
        rw [PresenceController.promoted_armed, har] at hm
        exact hm

section
variable {p p' : ContextualPresence} {past : List Log} {x : Log}

theorem ArmedInv.later (h : ArmedInv p past) (hx : ∀ other, ¬Arms other x)
    (hkp : ∀ armed ∈ p'.controller.armed, armed ∈ p.controller.armed ∧
      (Waits p.controller → Samples false x ∨ Waits p'.controller)) : ArmedInv p' (x :: past) := by
  intro armed har
  obtain ⟨hb, hwt⟩ := hkp armed har
  obtain ⟨after, arming, before, rfl, ham, haf, hlv⟩ := h armed hb
  refine ⟨x :: after, arming, before, rfl, ham, ?_, fun hp => ?_⟩
  · intro y hy
    rcases List.mem_cons.mp hy with rfl | hy
    · exact hx
    · exact haf y hy
  rcases hlv hp with ⟨y, hy, hr⟩ | hw
  · exact .inl ⟨y, List.mem_cons_of_mem x hy, hr⟩
  · rcases hwt hw with hr | hw'
    · exact .inl ⟨x, List.mem_cons_self, hr⟩
    · exact .inr hw'

/-- A confirmation by a controller that does not wait. -/
theorem ArmedInv.fresh (h : ArmedInv p past) (hwt : ¬Waits p.controller)
    {operationId : UInt32} (har : ∃ armed ∈ p.controller.armed, armed.operationId = operationId) :
    ∃ after armed before, past = after ++ armed :: before ∧ Arms operationId armed ∧
      (∀ x ∈ after, ∀ other, ¬Arms other x) ∧
      (LastPressed before → ∃ x ∈ after, Samples false x) := by
  obtain ⟨armed, hm, rfl⟩ := har
  obtain ⟨after, arming, before, hps, ham, haf, hlv⟩ := h armed hm
  exact ⟨after, arming, before, hps, ham, haf, fun hp =>
    (hlv hp).resolve_right hwt⟩

theorem ArmedInv.dropped (h : p.controller.armed = none) : ArmedInv p past := by
  intro armed har
  rw [h] at har
  cases har

theorem waits_sample {c : PresenceController} (h : Waits c) (nowMs : Nat) :
    Waits (c.sample true nowMs) := by
  have hsm : c.sample true nowMs = c := if_neg (not_not.mpr h.2.symm)
  rw [hsm]
  exact h

/-- A call in the state that listens settles the controller it leaves. -/
theorem settle_armed {c : PresenceController} {nowMs : Nat} (h : ArmedInv p past)
    (hx : ∀ other, ¬Arms other x) (ha : x.answer = .outcome (c.settle nowMs).1)
    (har : c.armed = p.controller.armed)
    (hwt : Waits p.controller → (Samples false x ∧ c.rawPressed = false) ∨ Waits c) :
    PressIsFresh x past ∧ ArmedInv ⟨(c.settle nowMs).2⟩ (x :: past) := by
  obtain ⟨hcn, hkp⟩ := settle_cases c nowMs
  refine ⟨fun id hid => ?_, h.later hx fun armed hm => ?_⟩
  · rw [ha] at hid
    obtain ⟨hrw, hn, hm⟩ := hcn id (Answer.outcome.inj hid)
    refine h.fresh (fun hw => ?_) (har ▸ hm)
    rcases hwt hw with ⟨-, hr⟩ | hw'
    · exact Bool.false_ne_true (hr.symm.trans hrw)
    · exact hn hw'
  · obtain ⟨hm', hst⟩ := hkp armed hm
    refine ⟨har ▸ hm', fun hw => ?_⟩
    rcases hwt hw with ⟨hr, -⟩ | hw'
    · exact .inl hr
    · exact .inr (hst hw')

theorem arm_armed (h : ArmedInv p past) {state : ExecutionState} {operationId : UInt32}
    {nowMs : Nat} (hlv : ArmsOnLevel (entry step p (.arm state operationId nowMs)) past) :
    ArmedInv (step p (.arm state operationId nowMs)).2
      (entry step p (.arm state operationId nowMs) :: past) := by
  have hf : ∀ error, p.arm state operationId nowMs = (.error error, p) →
      ArmedInv (step p (.arm state operationId nowMs)).2
        (entry step p (.arm state operationId nowMs) :: past) := by
    intro error heq
    change ArmedInv (p.arm state operationId nowMs).2 _
    rw [heq]
    refine h.later ?_ fun armed hm => ⟨hm, .inr⟩
    rintro other ⟨-, ha⟩
    change Answer.armed (p.arm state operationId nowMs).1 = _ at ha
    rw [heq] at ha
    cases ha
  by_cases hst : bootselAllowedAsPresence state = true
  · by_cases hsm : p.controller.armed.isSome = true
    · refine hf .alreadyArmed ?_
      unfold arm PresenceController.arm
      rw [hst, if_neg nofun, if_pos hsm]
    have heq : p.arm state operationId nowMs = (.ok (), ⟨{ p.controller with
        armed := some ⟨operationId, (nowMs + p.controller.timing.timeoutMs.toNat) % 2 ^ 64⟩
        awaitingRelease := p.controller.rawPressed || p.controller.debouncedPressed }⟩) := by
      unfold arm PresenceController.arm
      rw [hst, if_neg nofun, if_neg hsm]
    have har : Arms operationId (entry step p (.arm state operationId nowMs)) :=
      ⟨⟨state, nowMs, rfl⟩, by
        change Answer.armed (p.arm state operationId nowMs).1 = _
        rw [heq]⟩
    intro armed hm
    change armed ∈ (p.arm state operationId nowMs).2.controller.armed at hm
    rw [heq] at hm
    cases hm
    refine ⟨[], _, past, rfl, har, fun _ hx => absurd hx List.not_mem_nil, fun hp => .inr ?_⟩
    have hr := hlv operationId har hp
    change Waits (p.arm state operationId nowMs).2.controller
    rw [heq]
    exact ⟨by rw [show p.controller.rawPressed = true from hr]; rfl, hr⟩
  · refine hf .notArmed ?_
    unfold arm
    rw [Bool.not_eq_true] at hst
    rw [hst]
    rfl

theorem ignored_armed {e : Event} (heq : step p e = (.outcome none, p.disarm)) :
    PressIsFresh (entry step p e) past ∧ ArmedInv (step p e).2 (entry step p e :: past) := by
  refine ⟨fun id hid => ?_, ?_⟩
  · change (step p e).1 = _ at hid
    rw [heq] at hid
    cases hid
  · rw [heq]
    exact .dropped rfl

theorem step_update (p : ContextualPresence) (state : ExecutionState) (pressed : Bool)
    (nowMs : Nat) :
    step p (.update state pressed nowMs) =
      if bootselAllowedAsPresence state then
        (.outcome ((p.controller.sample pressed nowMs).settle nowMs).1,
          ⟨((p.controller.sample pressed nowMs).settle nowMs).2⟩)
      else (.outcome none, p.disarm) := by
  unfold step update
  dsimp only
  rcases bootselAllowedAsPresence state with _ | _ <;> rfl

theorem step_poll (p : ContextualPresence) (state : ExecutionState) (nowMs : Nat) :
    step p (.poll state nowMs) =
      if bootselAllowedAsPresence state then
        (.outcome (p.controller.settle nowMs).1, ⟨(p.controller.settle nowMs).2⟩)
      else (.outcome none, p.disarm) := by
  unfold step poll
  dsimp only
  rcases bootselAllowedAsPresence state with _ | _ <;> rfl

theorem step_armed (h : ArmedInv p past) (e : Event) (hlv : ArmsOnLevel (entry step p e) past) :
    PressIsFresh (entry step p e) past ∧ ArmedInv (step p e).2 (entry step p e :: past) := by
  cases e with
  | arm state operationId nowMs =>
    refine ⟨?_, arm_armed h hlv⟩
    intro id hid
    cases hid
  | disarm => exact ignored_armed rfl
  | update state pressed nowMs =>
    have hsp := step_update p state pressed nowMs
    split at hsp
    · rw [hsp]
      refine settle_armed h ?_ (congrArg Prod.fst hsp)
        (PresenceController.sample_armed _ _ _) fun hw => ?_
      · rintro other ⟨⟨_, _, hev⟩, -⟩
        cases hev
      · cases pressed with
        | true => exact .inr (waits_sample hw nowMs)
        | false => exact .inl ⟨⟨state, nowMs, rfl⟩, PresenceController.sample_rawPressed _ _ _⟩
    · exact ignored_armed hsp
  | poll state nowMs =>
    have hsp := step_poll p state nowMs
    split at hsp
    · rw [hsp]
      refine settle_armed h ?_ (congrArg Prod.fst hsp) rfl .inr
      rintro other ⟨⟨_, _, hev⟩, -⟩
      cases hev
    · exact ignored_armed hsp

end

/-! ## Runs -/

/-- In every run in which the controller arms on the sampled level, a press that confirms an
  operation began after a release, or after the operation was armed. -/
theorem press_is_fresh (timing : PresenceTiming) (es : List Event)
    (h : Along ArmsOnLevel (history step (new timing) es)) :
    Along PressIsFresh (history step (new timing) es) :=
  along_history (.dropped rfl)
    (fun _ _ e hI hlevel => step_armed hI e hlevel) es h

theorem armsOnLevel_of_ne {e : Log} {past : List Log}
    (h : ∀ state operationId nowMs, e.event ≠ .arm state operationId nowMs) : ArmsOnLevel e past :=
  fun operationId ⟨⟨state, nowMs, hev⟩, _⟩ => absurd hev (h state operationId nowMs)

def defaultTiming : PresenceTiming := ⟨20, 15000⟩

/-- A button that is down while the operation is armed confirms it after it was released and
  pressed again. -/
theorem press_is_fresh_released :
    Along PressIsFresh (history step (new defaultTiming)
      [.update .fidoWaitPresence true 0, .arm .fidoWaitPresence 1 30,
        .update .fidoWaitPresence true 40, .poll .fidoWaitPresence 70,
        .update .fidoWaitPresence false 80, .poll .fidoWaitPresence 100,
        .update .fidoWaitPresence true 110, .poll .fidoWaitPresence 130]) := by
  have hother := @armsOnLevel_of_ne
  exact press_is_fresh defaultTiming _
    ⟨hother nofun, hother nofun, hother nofun, hother nofun, hother nofun, hother nofun,
      fun _ _ _ => rfl, hother nofun, trivial⟩

/-- A button that goes down outside the state that listens, and stays down, confirms the operation
  that is armed later. -/
theorem held_press_confirms :
    (answers step (new defaultTiming)
      [.update .active true 0, .arm .fidoWaitPresence 1 30, .update .fidoWaitPresence true 40,
        .update .fidoWaitPresence true 60]).getLast? = some (.outcome (some (.confirmed 1))) ∧
    ¬Along PressIsFresh (history step (new defaultTiming)
      [.update .active true 0, .arm .fidoWaitPresence 1 30, .update .fidoWaitPresence true 40,
        .update .fidoWaitPresence true 60]) := by
  refine ⟨rfl, fun h => ?_⟩
  obtain ⟨after, armed, before, hpast, harms, -, hlevel⟩ := h.1 1 rfl
  -- Only the second call arms, so nothing but the third comes after it.
  have hevents : [.update .fidoWaitPresence true 40, .arm .fidoWaitPresence 1 30,
      .update .active true 0] = after.map Entry.event ++ armed.event :: before.map Entry.event := by
    rw [← List.map_cons, ← List.map_append, ← hpast]
    rfl
  obtain ⟨⟨state, nowMs, harming⟩, -⟩ := harms
  rw [harming] at hevents
  rcases after with _ | ⟨x, _ | ⟨y, _ | ⟨z, after⟩⟩⟩
  · simp at hevents
  · obtain ⟨hx, -, hbefore⟩ : _ ∧ _ ∧ _ := by simpa using hevents
    rcases before with _ | ⟨w, before⟩
    · cases hbefore
    have hw : Event.update .active true 0 = w.event := by simpa using (List.cons.inj hbefore).1
    obtain ⟨x', hx', state', nowMs', hreleased⟩ := hlevel (.inl ⟨.active, 0, hw.symm⟩)
    cases List.mem_singleton.mp hx'
    cases hx.trans hreleased
  · simp at hevents
  · simp at hevents

/-- Armed with the debounced level down and the raw one up: the poll settles a release from before
  the arming, and a press that began before it confirms. -/
example : (answers step (new defaultTiming)
    [.update .fidoWaitPresence true 0, .poll .fidoWaitPresence 20,
      .update .fidoWaitPresence false 25, .update .active true 30, .arm .fidoWaitPresence 1 31,
      .poll .fidoWaitPresence 45, .update .fidoWaitPresence true 46,
      .poll .fidoWaitPresence 66]).getLast? = some (.outcome (some (.confirmed 1))) := rfl

end ContextualPresence

end AegisToken
