/-
  The card (aegis-applets card.rs): an assembler of CCID messages in front of a router.
  A `Card` handles one message at a time. Power on, power off and abort reset the router; a block
  goes to it as a command while the card is powered. While a command waits for user presence no
  message is handled, so the resolution always comes next.
  The applets are told nothing of a reset. What a session may rest on is therefore stated for the
  selected applet only: `StepEffect` lists what one event of the card can do to it, and
  `StepEffect.since` is the rule for histories: if SELECT takes a grant away and only a
  verification gives it, then a grant of the selected applet rests on a verification since the
  last power event or SELECT.
-/
import AegisToken.Applets.Ccid
import AegisToken.Applets.Router

namespace AegisToken.Applets
open ByteCodec History
open Ccid (CcidError Assembler)

def atr : List UInt8 := [0x3B, 0x00]

/-- What a call of `poll` produced. -/
inductive Outcome where
  | response (bytes : List UInt8)
  | presenceRequired

variable {α : Type} {cap message : Nat}

/-- A card over applets, with buffers for responses and messages. -/
structure Card (applets : List (Applet α)) (cap message : Nat) where
  assembler : Assembler message
  router : Router applets cap
  powered : Bool
  pendingSequence : Option UInt8

/-- The result of one frame. -/
inductive FrameOutcome where
  | encoded (bytes : List UInt8)
  | presenceRequired (sequence : UInt8)

/-- A response of an applet as a data block. -/
def encodeDataBlock (sequence : UInt8) (response : Response) (room : Nat) :
    Except CcidError (List UInt8) :=
  if room < Ccid.headerLen then .error .overflow
  else
    match response.encodeInto (room - Ccid.headerLen) with
    | none => .error .overflow
    | some encoded =>
      match Ccid.writeDataBlockHeader sequence encoded.length room with
      | .error error => .error error
      | .ok header => .ok (header ++ encoded)

/-- A response of the reader itself. -/
def encoded (response : Ccid.Response) (room : Nat) : Except CcidError FrameOutcome :=
  (response.encodeInto room).map .encoded

namespace Card
variable {applets : List (Applet α)}

def new (applets : List (Applet α)) (cap message : Nat) (state : α) : Card applets cap message :=
  ⟨.new, .new applets cap state, false, none⟩

def feed (chunk : List UInt8) (card : Card applets cap message) :
    Except CcidError Unit × Card applets cap message :=
  let (result, assembler) := card.assembler.feed chunk
  (result, { card with assembler })

/-- Handle one complete frame: the result, the router and the power state. -/
def handleFrame (frame : List UInt8) (rng : Rng) (room : Nat) (r : Router applets cap)
    (powered : Bool) : Except CcidError FrameOutcome × Router applets cap × Bool :=
  let iccStatus := if powered then Ccid.iccStatusActive else Ccid.iccStatusInactive
  match Ccid.Request.parse frame with
  | .error _ => (encoded (.slotStatusFailed (frame.getD 6 0)) room, r, powered)
  | .ok request =>
    if request.slot ≠ 0 then (encoded (.slotStatusFailed request.sequence) room, r, powered)
    else
      match request with
      | .iccPowerOn _ sequence _ => (encoded (.dataBlock sequence atr) room, r.reset, true)
      | .iccPowerOff _ sequence =>
        (encoded (.slotStatus sequence Ccid.iccStatusInactive) room, r.reset, false)
      | .getSlotStatus _ sequence => (encoded (.slotStatus sequence iccStatus) room, r, powered)
      | .setParameters _ sequence protocol data =>
        if protocol = Ccid.protocolT0 then
          (encoded (.parameters sequence Ccid.protocolT0 data) room, r, powered)
        else (encoded (.parametersFailed sequence) room, r, powered)
      | .getParameters _ sequence | .resetParameters _ sequence =>
        (encoded (.parameters sequence Ccid.protocolT0 Ccid.t0Parameters) room, r, powered)
      | .setDataRateAndClock _ sequence data =>
        (encoded (.dataRateAndClock sequence data) room, r, powered)
      | .xfrBlock _ sequence _ _ data =>
        if !powered then (encoded (.dataBlockFailed sequence) room, r, powered)
        else
          let (response, r) := r.command data rng
          if response.sw = .presenceRequired then (.ok (.presenceRequired sequence), r, powered)
          else ((encodeDataBlock sequence response room).map .encoded, r, powered)
      | .escape _ sequence _ => (encoded (.dataBlockFailed sequence) room, r, powered)
      | .abort _ sequence => (encoded (.slotStatus sequence iccStatus) room, r.reset, powered)

/-- Handle the next complete message, unless a command waits for user presence. -/
def poll (rng : Rng) (room : Nat) (card : Card applets cap message) :
    Except CcidError (Option Outcome) × Card applets cap message :=
  if card.pendingSequence.isSome then (.ok none, card)
  else
    match card.assembler.pending with
    | .error error => (.error error, card)
    | .ok none => (.ok none, card)
    | .ok (some frame) =>
      let (result, router, powered) := handleFrame frame rng room card.router card.powered
      let card :=
        { card with assembler := card.assembler.consume frame.length, router, powered }
      match result with
      | .error error => (.error error, card)
      | .ok (.encoded bytes) => (.ok (some (.response bytes)), card)
      | .ok (.presenceRequired sequence) =>
        (.ok (some .presenceRequired), { card with pendingSequence := some sequence })

/-- Resolve a command that waits for user presence. -/
def completePresence (confirmed : Bool) (rng : Rng) (room : Nat) (card : Card applets cap message) :
    Except CcidError (Option (List UInt8)) × Card applets cap message :=
  match card.pendingSequence with
  | none => (.ok none, card)
  | some sequence =>
    let (response, router) :=
      if confirmed then card.router.confirmPresence rng else card.router.denyPresence
    ((encodeDataBlock sequence response room).map some,
      { card with router, pendingSequence := none })

def reset (card : Card applets cap message) : Card applets cap message :=
  ⟨.new, card.router.reset, false, none⟩

/-! ## The machine -/

/-- The calls of the card task. -/
inductive Event where
  | feed (chunk : List UInt8)
  | poll (rng : Rng) (room : Nat)
  | completePresence (confirmed : Bool) (rng : Rng) (room : Nat)
  | reset

def step (card : Card applets cap message) :
    Event → Except CcidError (Option Outcome) × Card applets cap message
  | .feed chunk => ((card.feed chunk).1.map fun _ => none, (card.feed chunk).2)
  | .poll rng room => card.poll rng room
  | .completePresence confirmed rng room =>
    let (result, card) := card.completePresence confirmed rng room
    (result.map (·.map .response), card)
  | .reset => (.ok none, card.reset)

/-- An entry of the history of a card. -/
abbrev Log (applets : List (Applet α)) (cap message : Nat) :=
  Entry (Card applets cap message) Event (Except CcidError (Option Outcome))

end Card

/-! ## What reaches an applet -/

/-- A call of an applet. -/
inductive Call where
  | select (rng : Rng)
  | process (apdu : Apdu) (rng : Rng)
  | confirm (rng : Rng)
  | deny

def Applet.call (applet : Applet α) (state : α) : Call → Response × α
  | .select rng => applet.selectWithRng rng state
  | .process apdu rng => applet.process apdu rng state
  | .confirm rng => applet.confirmPresence rng state
  | .deny => applet.denyPresence state

namespace Router
variable {applets : List (Applet α)}

/-- The applet that a command reaches, and the call it makes there. -/
def called (r : Router applets cap) (frame : List UInt8) (rng : Rng) :
    Option (Fin applets.length × Call) :=
  match Apdu.parse frame with
  | .error _ => none
  | .ok (cla, apdu) =>
    if cla ≠ claInterindustry then none
    else if apdu.ins = insSelect then
      if apdu.p1 ≠ selectByDfName then none
      else (applets.findFinIdx? fun applet => applet.aid.isPrefixOf apdu.data).map (·, .select rng)
    else if apdu.ins = insGetResponse ∨ (apdu.ins = insSendRemaining ∧ r.chain.isPending) then none
    else r.selected.map (·, .process apdu rng)

/-- What a command does to the applets and to the selection. -/
inductive CommandEffect (r : Router applets cap) (frame : List UInt8) (rng : Rng)
    (answer : Response) (after : Router applets cap) : Prop
  | kept : r.called frame rng = none → ¬SelectsByName frame → answer.sw ≠ .presenceRequired →
      after.state = r.state → after.selected = r.selected → CommandEffect r frame rng answer after
  | deselected : r.called frame rng = none → answer.sw ≠ .presenceRequired →
      after.state = r.state → after.selected = none → CommandEffect r frame rng answer after
  | selected (index : Fin applets.length) : r.called frame rng = some (index, .select rng) →
      (answer, after.state) = (applets.get index).call r.state (.select rng) →
      after.selected = some index → CommandEffect r frame rng answer after
  | processed (index : Fin applets.length) (apdu : Apdu) :
      r.called frame rng = some (index, .process apdu rng) → ¬SelectsByName frame →
      r.selected = some index →
      (answer.sw = .presenceRequired ↔
        ((applets.get index).call r.state (.process apdu rng)).1.sw = .presenceRequired) →
      after.state = ((applets.get index).call r.state (.process apdu rng)).2 →
      after.selected = some index → CommandEffect r frame rng answer after

theorem deliver_sw_ne (chain : Chainer cap) (le : Nat) :
    (chain.deliver le).1.sw ≠ .presenceRequired := by
  have hr : ∀ remaining, Sw.bytesRemaining remaining ≠ .presenceRequired := by
    intro remaining h
    have := Sw.isBytesRemaining_bytesRemaining remaining
    rw [h] at this
    cases this
  rw [(chain.deliver_eq le).1, Chainer.chunk]
  dsimp only
  split
  · rintro ⟨⟩
  · exact hr _

theorem begin_sw_ne (chain : Chainer cap) (data : List UInt8) (le : Nat) :
    (chain.begin data le).1.sw ≠ .presenceRequired := by
  unfold Chainer.begin
  split
  · exact nofun
  · exact deliver_sw_ne _ _

theorem getResponse_sw_ne (chain : Chainer cap) (le : Nat) :
    (chain.getResponse le).1.sw ≠ .presenceRequired := by
  unfold Chainer.getResponse
  split
  · exact nofun
  · exact deliver_sw_ne _ _

/-- A command for the selected applet. Only the applet asks for user presence: what is chained
  never does. -/
theorem forward_called (r : Router applets cap) (apdu : Apdu) (rng : Rng)
    (index : Fin applets.length) (hs : r.selected = some index) :
    ((r.forward apdu rng).1.sw = .presenceRequired ↔
        ((applets.get index).call r.state (.process apdu rng)).1.sw = .presenceRequired) ∧
      (r.forward apdu rng).2.state = ((applets.get index).call r.state (.process apdu rng)).2 ∧
      (r.forward apdu rng).2.selected = some index := by
  unfold forward Applet.call
  rw [hs]
  dsimp only
  split
  · exact ⟨Iff.rfl, rfl, rfl⟩
  rename_i hup
  split
  · exact ⟨iff_of_false (begin_sw_ne _ _ _) hup, rfl, rfl⟩
  · exact ⟨Iff.rfl, rfl, rfl⟩

theorem command_called (r : Router applets cap) (frame : List UInt8) (rng : Rng) :
    CommandEffect r frame rng (r.command frame rng).1 (r.command frame rng).2 := by
  have hnm : ∀ {cla : UInt8} {apdu : Apdu}, Apdu.parse frame = .ok (cla, apdu) →
      SelectsByName frame → cla = claInterindustry ∧ apdu.ins = insSelect ∧
        apdu.p1 = selectByDfName := by
    rintro cla apdu hpr ⟨apdu', hpr', hi, hp1⟩
    cases hpr.symm.trans hpr'
    exact ⟨rfl, hi, hp1⟩
  unfold command
  rcases hpr : Apdu.parse frame with sw | ⟨cla, apdu⟩
  · refine .kept (by rw [called, hpr]) ?_ ?_ rfl rfl
    · rintro ⟨apdu, hpr', -⟩
      cases hpr.symm.trans hpr'
    · rw [Apdu.parse_error hpr]
      exact nofun
  have hcl := called.eq_def r frame rng
  rw [hpr] at hcl
  dsimp only at hcl ⊢
  by_cases hc : cla ≠ claInterindustry
  · rw [if_pos hc] at hcl ⊢
    exact .kept hcl (fun h => hc (hnm hpr h).1) nofun rfl rfl
  rw [if_neg hc] at hcl ⊢
  by_cases hi : apdu.ins = insSelect
  · rw [if_pos hi] at hcl ⊢
    by_cases hp1 : apdu.p1 ≠ selectByDfName
    · rw [if_pos hp1] at hcl ⊢
      exact .kept hcl (fun h => hp1 (hnm hpr h).2.2) nofun rfl rfl
    rw [if_neg hp1] at hcl ⊢
    unfold select
    rcases hfn : applets.findFinIdx? fun applet => applet.aid.isPrefixOf apdu.data with _ | index
    · rw [hfn] at hcl ⊢
      exact .deselected hcl nofun rfl rfl
    · rw [hfn] at hcl ⊢
      exact .selected index hcl rfl rfl
  rw [if_neg hi] at hcl ⊢
  have hsl : ¬SelectsByName frame := fun h => hi (hnm hpr h).2.1
  by_cases hg : apdu.ins = insGetResponse ∨ (apdu.ins = insSendRemaining ∧ r.chain.isPending)
  · rw [if_pos hg] at hcl ⊢
    exact .kept hcl hsl (getResponse_sw_ne _ _) rfl rfl
  rw [if_neg hg] at hcl ⊢
  rcases hs : r.selected with _ | index
  · rw [hs] at hcl
    have hno : r.forward apdu rng = (.status .conditionsNotSatisfied, r) := by
      unfold forward
      rw [hs]
    rw [hno]
    exact .kept hcl hsl nofun rfl rfl
  · rw [hs] at hcl
    obtain ⟨hup, hst, hsc⟩ := forward_called r apdu rng index hs
    exact .processed index apdu hcl hsl hs hup hst hsc

end Router

namespace Card
variable {applets : List (Applet α)} {card after : Card applets cap message} {e : Event}

/-- What is passed on to the router. -/
inductive Passed where
  | reset
  | command (frame : List UInt8) (rng : Rng)
  | confirm (rng : Rng)
  | deny

/-- What a frame passes on. -/
def framePasses (frame : List UInt8) (powered : Bool) (rng : Rng) : Option Passed :=
  match Ccid.Request.parse frame with
  | .error _ => none
  | .ok request =>
    if request.slot ≠ 0 then none
    else
      match request with
      | .iccPowerOn _ _ _ | .iccPowerOff _ _ | .abort _ _ => some .reset
      | .xfrBlock _ _ _ _ data => if powered then some (.command data rng) else none
      | _ => none

def passes (card : Card applets cap message) : Event → Option Passed
  | .feed _ => none
  | .poll rng _ =>
    if card.pendingSequence.isSome then none
    else
      match card.assembler.pending with
      | .ok (some frame) => framePasses frame card.powered rng
      | _ => none
  | .completePresence confirmed rng _ =>
    if card.pendingSequence.isSome then some (if confirmed then .confirm rng else .deny) else none
  | .reset => some .reset

/-- The applet that an event reaches, and the call it makes there. -/
def called (card : Card applets cap message) (e : Event) : Option (Fin applets.length × Call) :=
  match card.passes e with
  | some (.command frame rng) => card.router.called frame rng
  | some (.confirm rng) => card.router.selected.map (·, .confirm rng)
  | some .deny => card.router.selected.map (·, .deny)
  | _ => none

/-- What ends the sessions of all applets: power on, power off, abort, a reset of the card, and a
  SELECT by name, of whatever applet. -/
def EndsSession (e : Log applets cap message) : Prop :=
  e.before.passes e.event = some .reset ∨
    ∃ frame rng, e.before.passes e.event = some (.command frame rng) ∧ Router.SelectsByName frame

/-! ## One step -/

/-- The frame is to be completed by the user. -/
def waits : Except CcidError FrameOutcome → Bool
  | .ok (.presenceRequired _) => true
  | _ => false

theorem waits_map (result : Except CcidError (List UInt8)) : waits (result.map .encoded) = false := by
  cases result <;> rfl

/-- What a frame does to the router. -/
inductive FrameEffect (frame : List UInt8) (rng : Rng) (r : Router applets cap) (powered : Bool)
    (result : Except CcidError FrameOutcome) (after : Router applets cap) : Prop
  | kept : framePasses frame powered rng = none → waits result = false → after = r →
      FrameEffect frame rng r powered result after
  | reset : framePasses frame powered rng = some .reset → waits result = false →
      after = r.reset → FrameEffect frame rng r powered result after
  | command (data : List UInt8) : framePasses frame powered rng = some (.command data rng) →
      (waits result = true ↔ (r.command data rng).1.sw = .presenceRequired) →
      after = (r.command data rng).2 → FrameEffect frame rng r powered result after

theorem handleFrame_effect (frame : List UInt8) (rng : Rng) (room : Nat) (r : Router applets cap)
    (powered : Bool) :
    FrameEffect frame rng r powered (handleFrame frame rng room r powered).1
      (handleFrame frame rng room r powered).2.1 := by
  have hps := framePasses.eq_def frame powered rng
  unfold handleFrame
  rcases hpr : Ccid.Request.parse frame with error | request
  · rw [hpr] at hps
    exact .kept hps (waits_map _) rfl
  rw [hpr] at hps
  dsimp only at hps ⊢
  by_cases hsl : request.slot ≠ 0
  · rw [if_pos hsl] at hps ⊢
    exact .kept hps (waits_map _) rfl
  rw [if_neg hsl] at hps ⊢
  cases request with
  | iccPowerOn slot sequence powerSelect | iccPowerOff slot sequence =>
    exact .reset hps (waits_map _) rfl
  | abort slot sequence => exact .reset hps (waits_map _) rfl
  | getSlotStatus slot sequence | getParameters slot sequence | resetParameters slot sequence =>
    exact .kept hps (waits_map _) rfl
  | setDataRateAndClock slot sequence data | escape slot sequence data =>
    exact .kept hps (waits_map _) rfl
  | setParameters slot sequence protocol data =>
    dsimp only
    split <;> exact .kept hps (waits_map _) rfl
  | xfrBlock slot sequence bwi levelParameter data =>
    cases powered with
    | false => exact .kept hps (waits_map _) rfl
    | true =>
      dsimp only
      rw [if_neg nofun]
      by_cases hup : (r.command data rng).1.sw = .presenceRequired
      · rw [if_pos hup]
        exact .command data hps (iff_of_true rfl hup) rfl
      rw [if_neg hup]
      refine .command data hps (iff_of_false ?_ hup) rfl
      rw [waits_map]
      exact Bool.false_ne_true

theorem poll_frame {frame : List UInt8} (rng : Rng) (room : Nat) (hno : card.pendingSequence = none)
    (hpn : card.assembler.pending = .ok (some frame)) :
    (card.poll rng room).2.router = (handleFrame frame rng room card.router card.powered).2.1 ∧
      (card.poll rng room).2.pendingSequence.isSome =
        waits (handleFrame frame rng room card.router card.powered).1 := by
  unfold poll
  rw [if_neg (by rw [hno]; decide), hpn]
  dsimp only
  rcases handleFrame frame rng room card.router card.powered with ⟨error | bytes | sequence, r, p⟩
  · exact ⟨rfl, by rw [hno]; rfl⟩
  · exact ⟨rfl, by rw [hno]; rfl⟩
  · exact ⟨rfl, rfl⟩

/-- What an event of the card does to the applets, the selection and the wait for presence. -/
inductive StepEffect (card : Card applets cap message) (e : Event)
    (after : Card applets cap message) : Prop
  | kept : card.called e = none → ¬EndsSession (entry step card e) →
      after.router.state = card.router.state → after.router.selected = card.router.selected →
      after.pendingSequence = card.pendingSequence → StepEffect card e after
  | deselected : card.called e = none → after.router.selected = none → StepEffect card e after
  | selected (index : Fin applets.length) (rng : Rng) :
      card.called e = some (index, .select rng) →
      after.router.state = ((applets.get index).call card.router.state (.select rng)).2 →
      after.router.selected = some index →
      (after.pendingSequence.isSome = true →
        ((applets.get index).call card.router.state (.select rng)).1.sw = .presenceRequired) →
      StepEffect card e after
  | processed (index : Fin applets.length) (apdu : Apdu) (rng : Rng) :
      card.called e = some (index, .process apdu rng) → ¬EndsSession (entry step card e) →
      card.router.selected = some index → card.pendingSequence = none →
      (after.pendingSequence.isSome = true ↔ ((applets.get index).call card.router.state
        (.process apdu rng)).1.sw = .presenceRequired) →
      after.router.state = ((applets.get index).call card.router.state (.process apdu rng)).2 →
      after.router.selected = some index → StepEffect card e after
  | resolved (index : Fin applets.length) (call : Call) : card.called e = some (index, call) →
      (call = .deny ∨ ∃ rng, call = .confirm rng) → ¬EndsSession (entry step card e) →
      card.router.selected = some index → card.pendingSequence.isSome = true →
      after.pendingSequence = none →
      after.router.state = ((applets.get index).call card.router.state call).2 →
      after.router.selected = some index → StepEffect card e after

/-- An event ends no session unless it resets the router or selects by name. -/
theorem not_endsSession (hrs : card.passes e ≠ some .reset)
    (hnm : ∀ frame rng, card.passes e = some (.command frame rng) →
      ¬Router.SelectsByName frame) : ¬EndsSession (entry step card e) := by
  rintro (h | ⟨frame, rng, h, hs⟩)
  · exact hrs h
  · exact hnm frame rng h hs

theorem not_endsSession_of_none (h : card.passes e = none) : ¬EndsSession (entry step card e) :=
  not_endsSession (by rw [h]; exact nofun) (by rw [h]; exact nofun)

theorem called_of_none (h : card.passes e = none) : card.called e = none := by
  unfold called
  rw [h]

theorem StepEffect.nothing (h : card.passes e = none) (hrt : after.router = card.router)
    (hpn : after.pendingSequence = card.pendingSequence) : StepEffect card e after :=
  .kept (called_of_none h) (not_endsSession_of_none h) (by rw [hrt]) (by rw [hrt]) hpn

/-- An event that passes a command to the router of a card that does not wait. -/
theorem StepEffect.command {data : List UInt8} {rng : Rng}
    (hps : card.passes e = some (.command data rng))
    (hno : card.pendingSequence = none)
    (hrt : after.router = (card.router.command data rng).2)
    (hwt : after.pendingSequence.isSome = true ↔
      (card.router.command data rng).1.sw = .presenceRequired) : StepEffect card e after := by
  have hcl : card.called e = card.router.called data rng := by
    unfold called
    rw [hps]
  have hen : ¬Router.SelectsByName data → ¬EndsSession (entry step card e) := by
    intro hnm
    refine not_endsSession ?_ ?_
    · rw [hps]
      exact nofun
    · rw [hps]
      rintro _ _ ⟨⟩
      exact hnm
  cases Router.command_called card.router data rng with
  | kept hc hnm hsw hst hsl =>
    refine .kept (hcl.trans hc) (hen hnm) (by rw [hrt]; exact hst) (by rw [hrt]; exact hsl) ?_
    have hil : after.pendingSequence = none :=
      Option.not_isSome_iff_eq_none.mp fun h => hsw (hwt.mp h)
    exact hil.trans hno.symm
  | deselected hc hsw hst hsl =>
    exact .deselected (hcl.trans hc) (by rw [hrt]; exact hsl)
  | selected index hc hst hsl =>
    have hr := congrArg Prod.fst hst
    refine .selected index rng (hcl.trans hc) ?_ (by rw [hrt]; exact hsl) ?_
    · rw [hrt]
      exact congrArg Prod.snd hst
    · intro h
      rw [← hr]
      exact hwt.mp h
  | processed index apdu hc hnm hs hup hst hsl =>
    exact .processed index apdu rng (hcl.trans hc) (hen hnm) hs hno
      (hwt.trans hup) (by rw [hrt]; exact hst) (by rw [hrt]; exact hsl)

theorem poll_cases (card : Card applets cap message) (rng : Rng) (room : Nat) :
    (card.passes (.poll rng room) = none ∧ (card.poll rng room).2 = card) ∨
    ∃ frame, card.pendingSequence = none ∧ card.assembler.pending = .ok (some frame) ∧
      card.passes (.poll rng room) = framePasses frame card.powered rng := by
  unfold passes poll
  dsimp only
  by_cases hwt : card.pendingSequence.isSome = true
  · rw [if_pos hwt, if_pos hwt]
    exact .inl ⟨rfl, rfl⟩
  rw [if_neg hwt, if_neg hwt]
  rcases card.assembler.pending with error | _ | frame
  · exact .inl ⟨rfl, rfl⟩
  · exact .inl ⟨rfl, rfl⟩
  · exact .inr ⟨frame, Option.not_isSome_iff_eq_none.mp hwt, rfl, rfl⟩

theorem poll_effect (card : Card applets cap message) (rng : Rng) (room : Nat) :
    StepEffect card (.poll rng room) (card.poll rng room).2 := by
  obtain ⟨hps, hpl⟩ | ⟨frame, hno, hpn, hps⟩ := card.poll_cases rng room
  · rw [hpl]
    exact .nothing hps rfl rfl
  obtain ⟨hrt, hsm⟩ := poll_frame rng room hno hpn
  generalize (card.poll rng room).2 = after at hrt hsm ⊢
  cases handleFrame_effect frame rng room card.router card.powered with
  | kept hfr hw haf =>
    have hil : after.pendingSequence = none :=
      Option.not_isSome_iff_eq_none.mp (by rw [hsm, hw]; exact Bool.false_ne_true)
    exact .nothing (hps.trans hfr) (hrt.trans haf) (hil.trans hno.symm)
  | reset hfr hw haf =>
    refine .deselected ?_ ?_
    · unfold called
      rw [hps, hfr]
    · rw [hrt, haf]
      rfl
  | command data hfr hw haf =>
    exact .command (hps.trans hfr) hno (hrt.trans haf) (by rw [hsm]; exact hw)

/-- The resolution of a wait, as the call it passes on: a confirmation or a denial. -/
theorem resolved_effect {call : Call} (hca : call = .deny ∨ ∃ rng, call = .confirm rng)
    (hcl : card.called e = card.router.selected.map (·, call))
    (hen : ¬EndsSession (entry step card e)) (hwt : card.pendingSequence.isSome = true)
    (hdn : after.pendingSequence = none)
    (hno : card.router.selected = none → after.router = card.router)
    (hsm : ∀ index, card.router.selected = some index → after.router.selected = some index ∧
      after.router.state = ((applets.get index).call card.router.state call).2) :
    StepEffect card e after := by
  rcases hs : card.router.selected with _ | index
  · rw [hs] at hcl
    exact .deselected hcl (by rw [hno hs, hs])
  · rw [hs] at hcl
    obtain ⟨hsl, hst⟩ := hsm index hs
    exact .resolved index call hcl hca hen hs hwt hdn hst hsl

theorem completePresence_effect (card : Card applets cap message) (confirmed : Bool) (rng : Rng)
    (room : Nat) :
    StepEffect card (.completePresence confirmed rng room)
      (card.completePresence confirmed rng room).2 := by
  have hps : card.passes (.completePresence confirmed rng room) =
      if card.pendingSequence.isSome then some (if confirmed then .confirm rng else .deny)
      else none := rfl
  rcases hpn : card.pendingSequence with _ | sequence
  · rw [hpn] at hps
    have hkp : (card.completePresence confirmed rng room).2 = card := by
      rw [completePresence, hpn]
    rw [hkp]
    exact .nothing hps rfl rfl
  rw [hpn] at hps
  have hwt : card.pendingSequence.isSome = true := by rw [hpn]; rfl
  have hen : ¬EndsSession (entry step card (.completePresence confirmed rng room)) := by
    refine not_endsSession ?_ ?_
    · rw [hps]
      cases confirmed <;> exact nofun
    · rw [hps]
      cases confirmed <;> exact nofun
  unfold completePresence
  rw [hpn]
  cases confirmed with
  | true =>
    refine resolved_effect (.inr ⟨rng, rfl⟩) (by rw [called, hps]; rfl) hen hwt rfl ?_ ?_
    · intro hs
      simp only [if_true, Router.confirmPresence, hs]
    · intro index hs
      simp only [if_true, Router.confirmPresence, hs]
      exact ⟨trivial, rfl⟩
  | false =>
    refine resolved_effect (.inl rfl) (by rw [called, hps]; rfl) hen hwt rfl ?_ ?_
    · intro hs
      simp only [Bool.false_eq_true, if_false, Router.denyPresence, hs]
    · intro index hs
      simp only [Bool.false_eq_true, if_false, Router.denyPresence, hs]
      exact ⟨trivial, rfl⟩

theorem step_effect (card : Card applets cap message) (e : Event) :
    StepEffect card e (card.step e).2 := by
  cases e with
  | feed chunk => exact .nothing rfl rfl rfl
  | poll rng room => exact poll_effect card rng room
  | completePresence confirmed rng room => exact completePresence_effect card confirmed rng room
  | reset => exact .deselected rfl rfl

/-! ## Grants of the selected applet -/

/-- An entry in which an applet was called so that `p` holds of its state, the call and the
  answer. -/
def Calls (index : Fin applets.length) (p : α → Call → Response → Prop)
    (e : Log applets cap message) : Prop :=
  ∃ call, e.before.called e.event = some (index, call) ∧
    p e.before.router.state call ((applets.get index).call e.before.router.state call).1

/-- Every call but SELECT is one of the selected applet. -/
theorem StepEffect.selected_of_called {index : Fin applets.length} {call : Call}
    (he : StepEffect card e after)
    (hcl : card.called e = some (index, call)) :
    (∃ rng, call = .select rng) ∨ card.router.selected = some index := by
  cases he with
  | kept hno | deselected hno => cases hno.symm.trans hcl
  | selected index' rng hc =>
    cases hc.symm.trans hcl
    exact .inl ⟨rng, rfl⟩
  | processed index' apdu rng hc _ hs | resolved index' call' hc _ _ hs =>
    cases hc.symm.trans hcl
    exact .inr hs

/-- If SELECT takes a grant away, and every other call of the applet that finds none leaves one
  only by `p`, then a grant of the selected applet rests on such a call in this session. -/
theorem StepEffect.since {past : List (Log applets cap message)} {index : Fin applets.length}
    {p : α → Call → Response → Prop} (he : StepEffect card e after) (granted : α → Prop)
    (hi : card.router.selected = some index → granted card.router.state →
      Since (fun v _ => Calls index p v) EndsSession past)
    (hsc : ∀ rng, ¬granted ((applets.get index).call card.router.state (.select rng)).2)
    (hca : ∀ call, card.called e = some (index, call) → (∀ rng, call ≠ .select rng) →
      card.router.selected = some index →
      granted ((applets.get index).call card.router.state call).2 → granted card.router.state ∨
        p card.router.state call ((applets.get index).call card.router.state call).1)
    (hs : after.router.selected = some index) (hgr : granted after.router.state) :
    Since (fun v _ => Calls index p v) EndsSession (entry step card e :: past) := by
  -- A call of the selected applet finds the grant, or is the one that gives it.
  have hcl : ∀ call, card.called e = some (index, call) → (∀ rng, call ≠ .select rng) →
      ¬EndsSession (entry step card e) → card.router.selected = some index →
      granted ((applets.get index).call card.router.state call).2 →
      Since (fun v _ => Calls index p v) EndsSession (entry step card e :: past) := by
    intro call hc hne hen hsl hg
    rcases hca call hc hne hsl hg with hb | hp
    · exact .inr ⟨hen, hi hsl hb⟩
    · exact .inl ⟨call, hc, hp⟩
  cases he with
  | kept _ hen hst hsl _ =>
    exact .inr ⟨hen, hi (hsl.symm.trans hs) (hst ▸ hgr)⟩
  | deselected _ hno => cases hno.symm.trans hs
  | selected index' rng _ hst hsl _ =>
    cases hsl.symm.trans hs
    exact absurd (hst ▸ hgr) (hsc rng)
  | processed index' apdu rng hc hen hsl _ _ hst haf =>
    cases haf.symm.trans hs
    exact hcl _ hc nofun hen hsl (hst ▸ hgr)
  | resolved index' call hc hkn hen hsl _ _ hst haf =>
    cases haf.symm.trans hs
    refine hcl _ hc ?_ hen hsl (hst ▸ hgr)
    rcases hkn with rfl | ⟨rng, rfl⟩ <;> exact nofun

end Card

end AegisToken.Applets
