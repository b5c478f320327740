/-
  Applet selection and dispatch (aegis-applets router.rs).
  An `Applet α` is one application over the state `α` of all of them. A `Router` over a list of
  applets is their state, which of them is selected, and a chained response; the selection is an
  index of the list, so it always names an applet.
  GET RESPONSE serves what is left of the last chained response. A command that is refused, or
  that waits for user presence, does not end a chained response, so its bytes can be fetched
  after it: `refused_command_leaves_bytes`. Where every other command replaces or clears it, GET
  RESPONSE only continues the command before it: `get_response_continues`.
-/
import AegisToken.Applets.Framing
import AegisToken.Applets.Rsa

namespace AegisToken.Applets
open ByteCodec History

/-- Capacity of the chaining buffer of a router. -/
def defaultResponseBytes : Nat := 2048

def claInterindustry : UInt8 := 0x00
def insSelect : UInt8 := 0xA4
def insGetResponse : UInt8 := 0xC0
def insSendRemaining : UInt8 := 0xA5
def selectByDfName : UInt8 := 0x04

/-- The trait `Applet`, over the state of all applets. -/
structure Applet (α : Type) where
  aid : List UInt8
  selectWithRng : Rng → α → Response × α
  process : Apdu → Rng → α → Response × α
  confirmPresence : Rng → α → Response × α
  denyPresence : α → Response × α

variable {α : Type} {cap : Nat}

/-- A router over applets, with a response buffer of `cap` bytes. -/
structure Router (applets : List (Applet α)) (cap : Nat) where
  state : α
  selected : Option (Fin applets.length)
  chain : Chainer cap

theorem Response.eq_ok {response : Response} (hok : response.sw = .ok) :
    response = .ok response.data := by
  cases response with
  | mk data sw => exact congrArg (Response.mk data) hok

namespace Router
variable {applets : List (Applet α)} {r : Router applets cap} {frame data : List UInt8} {rng : Rng}

def new (applets : List (Applet α)) (cap : Nat) (state : α) : Router applets cap :=
  ⟨state, none, .new⟩

def reset (r : Router applets cap) : Router applets cap :=
  { r with selected := none, chain := r.chain.clear }

/-- SELECT by name: the first applet whose identifier the name starts with. -/
def select (name : List UInt8) (rng : Rng) (r : Router applets cap) :
    Response × Router applets cap :=
  let r := { r with chain := r.chain.clear }
  match applets.findFinIdx? fun applet => applet.aid.isPrefixOf name with
  | some index =>
    let (response, state) := (applets.get index).selectWithRng rng r.state
    (response, { r with selected := some index, state })
  | none => (.status .fileNotFound, { r with selected := none })

/-- Pass a command to the selected applet. A success starts a chained response. -/
def forward (apdu : Apdu) (rng : Rng) (r : Router applets cap) : Response × Router applets cap :=
  match r.selected with
  | none => (.status .conditionsNotSatisfied, r)
  | some index =>
    let (response, state) := (applets.get index).process apdu rng r.state
    let r := { r with state }
    if response.sw = .presenceRequired then (response, r)
    else if response.sw = .ok then
      let (response, chain) := r.chain.begin response.data apdu.expectedLen
      (response, { r with chain })
    else (response, r)

def command (frame : List UInt8) (rng : Rng) (r : Router applets cap) :
    Response × Router applets cap :=
  match Apdu.parse frame with
  | .error sw => (.status sw, r)
  | .ok (cla, apdu) =>
    if cla ≠ claInterindustry then (.status .claNotSupported, r)
    else if apdu.ins = insSelect then
      if apdu.p1 ≠ selectByDfName then (.status .incorrectParameters, r)
      else r.select apdu.data rng
    else if apdu.ins = insGetResponse ∨ (apdu.ins = insSendRemaining ∧ r.chain.isPending) then
      let (response, chain) := r.chain.getResponse apdu.expectedLen
      (response, { r with chain })
    else r.forward apdu rng

def confirmPresence (rng : Rng) (r : Router applets cap) : Response × Router applets cap :=
  match r.selected with
  | none => (.status .conditionsNotSatisfied, r)
  | some index =>
    let (response, state) := (applets.get index).confirmPresence rng r.state
    (response, { r with state })

def denyPresence (r : Router applets cap) : Response × Router applets cap :=
  match r.selected with
  | none => (.status .conditionsNotSatisfied, r)
  | some index =>
    let (response, state) := (applets.get index).denyPresence r.state
    (response, { r with state })

/-! ## What one command does to the chained response -/

/-- The instruction of a well-formed command of the accepted class. -/
def instruction (frame : List UInt8) : Option UInt8 :=
  match Apdu.parse frame with
  | .error _ => none
  | .ok (cla, apdu) => if cla = claInterindustry then some apdu.ins else none

/-- GET RESPONSE or SEND REMAINING. -/
def Continues (frame : List UInt8) : Prop :=
  instruction frame = some insGetResponse ∨ instruction frame = some insSendRemaining

/-- The command is one for the selected applet, which answers 9000 with `data`. -/
def Serves (r : Router applets cap) (frame : List UInt8) (rng : Rng) (data : List UInt8) : Prop :=
  ∃ apdu index, Apdu.parse frame = .ok (claInterindustry, apdu) ∧ apdu.ins ≠ insSelect ∧
    r.selected = some index ∧
    ((applets.get index).process apdu rng r.state).1 = .ok data

def SelectsByName (frame : List UInt8) : Prop :=
  ∃ apdu, Apdu.parse frame = .ok (claInterindustry, apdu) ∧ apdu.ins = insSelect ∧
    apdu.p1 = selectByDfName

/-- What a command does to the chained response. -/
inductive ChainEffect (r : Router applets cap) (frame : List UInt8) (rng : Rng) :
    Response × Router applets cap → Prop
  | kept {answer after} (hname : ¬SelectsByName frame) (hserves : ∀ data, ¬r.Serves frame rng data)
      (hother : instruction frame ≠ some insGetResponse)
      (hnone : instruction frame = some insSendRemaining → r.chain.isPending = false)
      (hchain : after.chain = r.chain) : ChainEffect r frame rng (answer, after)
  | cleared {answer after} (hselect : SelectsByName frame) (hchain : after.chain = r.chain.clear) :
      ChainEffect r frame rng (answer, after)
  | continued {answer after} (le : Nat) (hcontinues : Continues frame)
      (hresult : (answer, after.chain) = r.chain.getResponse le) :
      ChainEffect r frame rng (answer, after)
  | began {answer after data} (le : Nat) (hserves : r.Serves frame rng data)
      (hother : instruction frame ≠ some insGetResponse)
      (hnone : instruction frame = some insSendRemaining → r.chain.isPending = false)
      (hresult : (answer, after.chain) = r.chain.begin data le) :
      ChainEffect r frame rng (answer, after)

theorem instruction_of_parse {apdu : Apdu}
    (hpr : Apdu.parse frame = .ok (claInterindustry, apdu)) :
    instruction frame = some apdu.ins := by
  unfold instruction
  rw [hpr]
  exact if_pos rfl

theorem instruction_of_serves (hr : r.Serves frame rng data) :
    ∃ ins, ins ≠ insSelect ∧ instruction frame = some ins := by
  obtain ⟨apdu, -, hpr, hs, -, -⟩ := hr
  exact ⟨apdu.ins, hs, instruction_of_parse hpr⟩

theorem instruction_of_selectsByName (hnm : SelectsByName frame) :
    instruction frame = some insSelect := by
  obtain ⟨apdu, hpr, hs, -⟩ := hnm
  rw [instruction_of_parse hpr, hs]

theorem kept_of_instruction_none {answer : Response} (hi : instruction frame = none) :
    ChainEffect r frame rng (answer, r) := by
  refine .kept (fun h => ?_) (fun data h => ?_) (by rw [hi]; nofun) (by rw [hi]; nofun) rfl
  · rw [instruction_of_selectsByName h] at hi
    exact absurd hi nofun
  · obtain ⟨ins, -, h⟩ := instruction_of_serves h
    rw [h] at hi
    exact absurd hi nofun

theorem forward_effect {apdu : Apdu} (hpr : Apdu.parse frame = .ok (claInterindustry, apdu))
    (hsl : apdu.ins ≠ insSelect)
    (hf : ¬(apdu.ins = insGetResponse ∨ (apdu.ins = insSendRemaining ∧ r.chain.isPending))) :
    ChainEffect r frame rng (r.forward apdu rng) := by
  have hi := instruction_of_parse hpr
  have hoh : instruction frame ≠ some insGetResponse := by
    rw [hi]
    exact fun h => hf (.inl (Option.some.inj h))
  have hno : instruction frame = some insSendRemaining → r.chain.isPending = false := by
    rw [hi]
    exact fun h => Bool.eq_false_iff.mpr fun hp => hf (.inr ⟨Option.some.inj h, hp⟩)
  have hnm : ¬SelectsByName frame := by
    intro h
    have := (instruction_of_selectsByName h).symm.trans hi
    exact hsl (Option.some.inj this).symm
  -- The applet's answer decides: only 9000 is a response to chain.
  have hr : ∀ index, r.selected = some index → ∀ data, r.Serves frame rng data →
      ((applets.get index).process apdu rng r.state).1.sw = .ok := by
    rintro index hs data ⟨apdu', index', hpr', -, hs', hok⟩
    obtain rfl : apdu' = apdu := congrArg Prod.snd (Except.ok.inj (hpr'.symm.trans hpr))
    obtain rfl : index' = index := Option.some.inj (hs'.symm.trans hs)
    rw [hok]
    rfl
  unfold forward
  rcases hs : r.selected with _ | index
  · refine .kept hnm (fun data h => ?_) hoh hno rfl
    obtain ⟨-, index, -, -, hsm, -⟩ := h
    exact absurd (hs.symm.trans hsm) nofun
  dsimp only
  split
  · rename_i hup
    refine .kept hnm (fun data h => ?_) hoh hno rfl
    exact absurd (hup.symm.trans (hr index hs data h)) nofun
  split
  · rename_i hok
    exact .began apdu.expectedLen ⟨apdu, index, hpr, hsl, hs, Response.eq_ok hok⟩ hoh hno rfl
  · rename_i hfl
    exact .kept hnm (fun data h => hfl (hr index hs data h)) hoh hno rfl

theorem command_effect : ChainEffect r frame rng (r.command frame rng) := by
  unfold command
  rcases hpr : Apdu.parse frame with sw | ⟨cla, apdu⟩
  · have hi : instruction frame = none := by unfold instruction; rw [hpr]
    exact kept_of_instruction_none hi
  dsimp only
  split
  · rename_i hc
    have hi : instruction frame = none := by
      unfold instruction
      rw [hpr]
      exact if_neg hc
    exact kept_of_instruction_none hi
  rename_i hc
  obtain rfl := not_not.mp hc
  have hi := instruction_of_parse hpr
  split
  · rename_i hs
    have hoh : ∀ ins, ins ≠ insSelect → instruction frame ≠ some ins := by
      intro ins hne h
      exact hne ((Option.some.inj (hi.symm.trans h)).symm.trans hs)
    split
    · rename_i hp1
      refine .kept (fun h => ?_) (fun data h => ?_) (hoh _ nofun)
        (fun h => absurd h (hoh _ nofun)) rfl
      · obtain ⟨apdu', hpr', -, hp1'⟩ := h
        obtain rfl : apdu' = apdu := congrArg Prod.snd (Except.ok.inj (hpr'.symm.trans hpr))
        exact hp1 hp1'
      · obtain ⟨ins, hne, h⟩ := instruction_of_serves h
        exact hoh ins hne h
    · rename_i hp1
      have hnm : SelectsByName frame := ⟨apdu, hpr, hs, not_not.mp hp1⟩
      unfold select
      split <;> exact .cleared hnm rfl
  rename_i hs
  split
  · rename_i hcn
    refine .continued apdu.expectedLen ?_ rfl
    unfold Continues
    rw [hi]
    exact hcn.imp (congrArg some) fun h => congrArg some h.1
  · rename_i hf
    exact forward_effect hpr hs hf

/-! ## Runs of commands -/

/-- The router's step: one command frame and the entropy it may use. -/
def step (r : Router applets cap) (c : List UInt8 × Rng) : Response × Router applets cap :=
  r.command c.1 c.2

/-- A history of commands, the latest first. -/
abbrev Log (applets : List (Applet α)) (cap : Nat) :=
  List (Entry (Router applets cap) (List UInt8 × Rng) Response)

/-- The data bytes a stretch of the history answered, in the order they were sent. -/
def dataOf (log : Log applets cap) : List UInt8 := log.reverse.flatMap fun e => e.answer.data

theorem dataOf_cons (e : Entry (Router applets cap) (List UInt8 × Rng) Response)
    (log : Log applets cap) : dataOf (e :: log) = dataOf log ++ e.answer.data := by
  simp [dataOf]

/-- The last command that is neither GET RESPONSE nor SEND REMAINING was one an applet answered
  9000 with `data`, and 61xx was sent for it; `sent` has gone out so far. -/
def Chained (past : Log applets cap) (data sent : List UInt8) : Prop :=
  ∃ after x before, past = after ++ x :: before ∧ (∀ y ∈ after, Continues y.event.1) ∧
    ¬Continues x.event.1 ∧ x.before.Serves x.event.1 x.event.2 data ∧
    x.answer.sw.isBytesRemaining = true ∧ sent = x.answer.data ++ dataOf after

/-- A GET RESPONSE that answers bytes sends the next bytes of the command it continues. -/
def OnlyContinues (e : Entry (Router applets cap) (List UInt8 × Rng) Response)
    (past : Log applets cap) : Prop :=
  instruction e.event.1 = some insGetResponse → e.answer.data ≠ [] →
    ∃ data sent, Chained past data sent ∧ sent ++ e.answer.data <+: data

/-- A SEND REMAINING that goes to an applet. -/
def Forwards (e : Entry (Router applets cap) (List UInt8 × Rng) Response) : Prop :=
  instruction e.event.1 = some insSendRemaining ∧ e.before.chain.isPending = false ∧
    e.before.selected ≠ none

/-- While bytes are pending, a command that does not continue them selects an applet by name or is
  one the selected applet answers 9000. -/
def ReplacesPending (e : Entry (Router applets cap) (List UInt8 × Rng) Response) : Prop :=
  e.before.chain.isPending = true → ¬Continues e.event.1 →
    SelectsByName e.event.1 ∨ ∃ data, e.before.Serves e.event.1 e.event.2 data

/-- Pending bytes are what is left of the command the history ends in. -/
def ChainSound (r : Router applets cap) (past : Log applets cap) : Prop :=
  r.chain.isPending = true → ∃ data sent, Chained past data sent ∧ sent ++ r.chain.rest = data

theorem getResponse_empty {c : Chainer cap} (le : Nat) (hem : c.isPending = false) :
    c.getResponse le = (.status .conditionsNotSatisfied, c) := by
  unfold Chainer.getResponse
  rw [hem]
  rfl

variable {e : Entry (Router applets cap) (List UInt8 × Rng) Response} {past : Log applets cap}

/-- A command that continues a chained response keeps the account of what has been sent. -/
theorem continued_sound {after : Router applets cap} {le : Nat} (hsd : ChainSound r past)
    (hcn : Continues e.event.1)
    (hr : (e.answer, after.chain) = r.chain.getResponse le) :
    OnlyContinues e past ∧ ChainSound after (e :: past) := by
  rcases hpn : r.chain.isPending with _ | _
  · -- Nothing is pending: no bytes are sent, and nothing is pending afterwards.
    rw [getResponse_empty le hpn] at hr
    obtain ⟨hn, hch⟩ := Prod.mk.inj hr
    refine ⟨fun _ hdt => absurd (congrArg Response.data hn) hdt, fun h => ?_⟩
    rw [hch, hpn] at h
    exact absurd h nofun
  obtain ⟨data, sent, hc, hrs⟩ := hsd hpn
  have hd : r.chain.getResponse le = r.chain.deliver le := by
    unfold Chainer.getResponse
    rw [hpn]
    rfl
  obtain ⟨ha, -⟩ := r.chain.deliver_spec le
  rw [← hd, ← hr] at ha
  have hsn : sent ++ e.answer.data ++ after.chain.rest = data := by
    rw [List.append_assoc, ha, hrs]
  refine ⟨fun _ _ => ⟨data, sent, hc, after.chain.rest, hsn⟩, fun _ => ?_⟩
  obtain ⟨later, x, before, hps, hlt, hx, hs, hsw, hsf⟩ := hc
  refine ⟨data, sent ++ e.answer.data, ⟨e :: later, x, before, by rw [hps]; rfl, ?_, hx, hs,
    hsw, by rw [hsf, dataOf_cons, List.append_assoc]⟩, hsn⟩
  intro y hy
  rcases List.mem_cons.mp hy with rfl | hy
  · exact hcn
  · exact hlt y hy

/-- A new chained response starts a new account. -/
theorem began_sound {after : Router applets cap} {c : Chainer cap} {le : Nat}
    (hcn : ¬Continues e.event.1) (hs : e.before.Serves e.event.1 e.event.2 data)
    (hr : (e.answer, after.chain) = c.begin data le) : ChainSound after (e :: past) := by
  unfold Chainer.begin at hr
  rcases hf : BoundedBytes.ofSlice cap data with _ | pending
  · rw [hf] at hr
    intro h
    rw [(Prod.mk.inj hr).2] at h
    exact absurd h Bool.false_ne_true
  rw [hf] at hr
  dsimp only at hr
  obtain ⟨ha, hsw⟩ :=
    Chainer.deliver_spec (⟨pending, 0, Nat.zero_le _⟩ : Chainer cap) le
  rw [← hr] at ha hsw
  intro h
  have hdt : pending.val = data := (BoundedBytes.ofSlice_eq_some.mp hf)
  refine ⟨data, e.answer.data, ⟨[], e, past, rfl, nofun, hcn, hs, hsw h, ?_⟩, ?_⟩
  · exact (List.append_nil _).symm
  · rw [ha, ← hdt]
    rfl

theorem step_sound (r : Router applets cap) (past : Log applets cap) (c : List UInt8 × Rng)
    (hsd : ChainSound r past) (hf : ¬Forwards (entry step r c))
    (hp : ReplacesPending (entry step r c)) :
    OnlyContinues (entry step r c) past ∧ ChainSound (step r c).2 (entry step r c :: past) := by
  have he : ChainEffect r c.1 c.2 (step r c) := command_effect
  rcases hr : step r c with ⟨answer, after⟩
  have hen : entry step r c = ⟨r, c, answer⟩ := by unfold entry; rw [hr]
  rw [hr] at he
  rw [hen] at hf hp ⊢
  cases he with
  | kept hnm hs hoh hno hch =>
    refine ⟨fun h => absurd h hoh, fun h => ?_⟩
    -- What is pending now was pending before, and then the command had to replace it.
    rw [show after.chain = r.chain from hch] at h
    have hcn : ¬Continues c.1 := by
      rintro (hg | hsn)
      · exact hoh hg
      · exact absurd (h.symm.trans (hno hsn)) nofun
    rcases hp h hcn with hnm' | ⟨data, hdt⟩
    · exact absurd hnm' hnm
    · exact absurd hdt (hs data)
  | cleared hnm hch =>
    have hi := instruction_of_selectsByName hnm
    refine ⟨fun h => absurd (hi.symm.trans h) nofun, fun h => ?_⟩
    rw [show after.chain = r.chain.clear from hch] at h
    exact absurd h Bool.false_ne_true
  | continued le hcn hr => exact continued_sound hsd hcn hr
  | began le hs hoh hno hr =>
    refine ⟨fun h => absurd h hoh, began_sound ?_ hs hr⟩
    rintro (hg | hsn)
    · exact hoh hg
    · -- A SEND REMAINING that reached an applet.
      obtain ⟨-, index, -, -, hl, -⟩ := hs
      exact hf ⟨hsn, hno hsn, by rw [show r.selected = some index from hl]; nofun⟩

/-- In every run of commands without a SEND REMAINING that goes to an applet, in which every
  command handled while bytes are pending continues or replaces them, GET RESPONSE only continues
  the command before it. -/
theorem get_response_continues (state : α) (commands : List (List UInt8 × Rng))
    (hforwards : Along (fun e _ => ¬Forwards e) (history step (new applets cap state) commands))
    (hreplaces : Along (fun e _ => ReplacesPending e)
      (history step (new applets cap state) commands)) :
    Along OnlyContinues (history step (new applets cap state) commands) := by
  refine along_history (I := ChainSound) ?_ ?_ commands (hforwards.and hreplaces)
  · exact fun h => absurd h Bool.false_ne_true
  · exact fun r past c hsound hP => step_sound r past c hsound hP.1 hP.2

/-- The last command, where it is not a continuation, is the one that was served. -/
theorem Chained.serves {data sent : List UInt8} (hc : Chained (e :: past) data sent)
    (hcn : ¬Continues e.event.1) :
    e.before.Serves e.event.1 e.event.2 data := by
  obtain ⟨after, x, before, hps, haf, -, hs, -, -⟩ := hc
  cases after with
  | nil =>
    obtain rfl := (List.cons.inj hps).1
    exact hs
  | cons y after =>
    obtain rfl := (List.cons.inj hps).1
    exact absurd (haf e List.mem_cons_self) hcn

/-- An applet that answers instruction 01 with one byte and instruction 02 with a payload. -/
def scriptedApplet (aid payload : List UInt8) : Applet Unit where
  aid := aid
  selectWithRng := fun _ state => (.ok [], state)
  process := fun apdu _ state =>
    if apdu.ins = 0x01 then (.ok [0x01], state)
    else if apdu.ins = 0x02 then (.ok payload, state)
    else if apdu.ins = insSendRemaining then (.ok [insSendRemaining], state)
    else (.status .insNotSupported, state)
  confirmPresence := fun _ state => (.status .conditionsNotSatisfied, state)
  denyPresence := fun state => (.status .securityStatusNotSatisfied, state)

/-- SELECT, and a command of which one byte of two is sent. -/
def chainedCommands : List (List UInt8 × Rng) :=
  [([0x00, 0xA4, 0x04, 0x00, 0x01, 0xA0], fun _ => 0), ([0x00, 0x02, 0x00, 0x00, 0x01], fun _ => 0)]

def fetchCommand : List UInt8 × Rng := ([0x00, 0xC0, 0x00, 0x00, 0x01], fun _ => 0)

theorem get_response_continues_fetch :
    Along OnlyContinues (history step (new [scriptedApplet [0xA0] [0x11, 0x22]] 64 ())
      (chainedCommands ++ [fetchCommand])) := by
  refine get_response_continues () _ ?_ ?_
  · refine ⟨?_, ?_, ?_, trivial⟩ <;> exact fun h => absurd h.1 nofun
  refine ⟨?_, ?_, ?_, trivial⟩
  · exact fun _ h => absurd (.inl (by decide)) h
  · exact fun h => absurd h nofun
  · exact fun h => absurd h nofun

/-- A frame too short to be a command is refused, and GET RESPONSE then sends the byte that was
  left from the command before it. -/
theorem refused_command_leaves_bytes :
    Along (fun e _ => ¬Forwards e) (history step
      (new [scriptedApplet [0xA0] [0x11, 0x22]] 64 ())
        (chainedCommands ++ [([0x00], fun _ => 0), fetchCommand])) ∧
    ¬Along OnlyContinues (history step (new [scriptedApplet [0xA0] [0x11, 0x22]] 64 ())
      (chainedCommands ++ [([0x00], fun _ => 0), fetchCommand])) := by
  refine ⟨?_, fun h => ?_⟩
  · refine ⟨?_, ?_, ?_, ?_, trivial⟩ <;> exact fun h => absurd h.1 nofun
  · obtain ⟨data, sent, hchained, -⟩ := h.1 (by decide) (by decide)
    obtain ⟨apdu, -, hparse, -⟩ := hchained.serves nofun
    exact absurd hparse nofun

end Router

end AegisToken.Applets
