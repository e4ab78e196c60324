import Smcp.Lib.Run
import Smcp.Transaction.Evolve

/-!
# The application

What a program can do with an instance, and the states it can bring it to. A program acts from
outside, or when the library calls it; either way it does nothing but call the library.

`Reachable.acts` says that all of this takes only the steps of the machines.
-/

namespace Smcp

open Run ByteMemory

/-! ## Composing -/

/-- The calls that compose and send messages. Option numbers have 16 bits. -/
inductive OutboundCall where
  | begin (code tt : ℕ)
  | beginResponse (code : ℕ)
  | setMsgId (tid : ℕ)
  | setCode (code : ℕ)
  | setToken (token : List UInt8)
  | setDestaddr (sockaddr : SockAddr)
  | addOption (key : Fin 65536) (value : List UInt8)
  | addOptionUint (key : Fin 65536) (value : ℕ)
  | appendContent (value : List UInt8)
  | setContentFormatted (text : List UInt8)
  /-- `smcp_outbound_get_content_ptr`, and `value` is written there. -/
  | writeContent (value : List UInt8)
  | setContentLen (len : ℕ)
  | setVarContentInt (v : ℤ)
  | send
  | quickResponse (code : ℕ) (body : Option (List UInt8))
  | drop
  | reset

/-- Write the content in place. -/
def fillContent (s : Instance) (value : List UInt8) : Instance :=
  let s := smcpOutboundGetContentPtr s
  { s with outbound.packetBytes := s.outbound.packetBytes.copy s.outbound.contentPtr value }

/-- Make the call. -/
def OutboundCall.exec : OutboundCall → Instance → Instance × ℤ
  | .begin code tt, s => smcpOutboundBegin s code tt
  | .beginResponse code, s => smcpOutboundBeginResponse s code
  | .setMsgId tid, s => (smcpOutboundSetMsgId s tid, smcpStatusOk)
  | .setCode code, s => (smcpOutboundSetCode s code, smcpStatusOk)
  | .setToken token, s => smcpOutboundSetToken s token
  | .setDestaddr sockaddr, s => (smcpOutboundSetDestaddr s sockaddr, smcpStatusOk)
  | .addOption key value, s => smcpOutboundAddOption s key value
  | .addOptionUint key value, s => smcpOutboundAddOptionUint s key value
  | .appendContent value, s => smcpOutboundAppendContent s value
  | .setContentFormatted text, s => smcpOutboundSetContentFormatted s text
  | .writeContent value, s => (fillContent s value, smcpStatusOk)
  | .setContentLen len, s => (smcpOutboundSetContentLen s len, smcpStatusOk)
  | .setVarContentInt v, s => smcpOutboundSetVarContentInt s v
  | .send, s => smcpOutboundSend s
  | .quickResponse code body, s => smcpOutboundQuickResponse s code body
  | .drop, s => (smcpOutboundDrop s, smcpStatusOk)
  | .reset, s => (smcpOutboundReset s, smcpStatusOk)

/-! ## Everything else -/

/-- The calls into the library, and the clock. Transactions and timers are those of the
application; the ones in the observer table belong to the library. -/
inductive Op where
  | tick (now : Timeval)
  | process (arrival : Option Arrival) (rest : ℕ → UInt8)
  | startPacket (buffer : ℕ → UInt8) (packetLength : ℕ)
  | setSrcaddr (sockaddr : SockAddr)
  | setDestaddr (sockaddr : SockAddr)
  | finishPacket
  | handleTimers
  | nextOption
  | resetNextOption
  | outbound (call : OutboundCall)
  | transactionInit (n : ℕ) (alloc : Bool) (flags : ℕ) (resendCallback callback : Option ℕ)
  | transactionBegin (n : ℕ) (expiration : ℤ)
  | transactionEnd (n : ℕ)
  | transactionNewMsgId (n : ℕ) (msgId : Fin 65536)
  | transactionTickle (n : ℕ)
  | getNextMsgId
  | timerInit (n callback : ℕ) (cancel : Option ℕ)
  | scheduleTimer (n : ℕ) (cms : ℤ)
  | invalidateTimer (n : ℕ)
  | observableUpdate (context key : ℕ)
  | observableTrigger (context key : ℕ)
  | setDefaultRequestHandler (handler : Option ℕ)
  | vhostAdd (name : List UInt8) (func : ℕ)
  | startAsyncResponse (x : AsyncResponse) (dontAck : Bool)
  | beginAsyncResponse (code : ℕ) (x : AsyncResponse)

/-- Do it. -/
def Op.exec (hooks : Hooks) (op : Op) (s : Instance) : Instance :=
  -- the calls of the main loop, and what an application calls in between
  match op with
  | .tick now => { s with now := now }
  | .process arrival rest => smcpProcess hooks s arrival rest
  | .startPacket buffer packetLength => (smcpInboundStartPacket s buffer packetLength).1
  | .setSrcaddr sockaddr => (smcpInboundSetSrcaddr s sockaddr).1
  | .setDestaddr sockaddr => (smcpInboundSetDestaddr s sockaddr).1
  | .finishPacket => (smcpInboundFinishPacket hooks s).1
  | .handleTimers => smcpHandleTimers hooks s
  | .nextOption => { s with inbound := s.inbound.nextOption.inbound }
  | .resetNextOption => { s with inbound := s.inbound.resetNextOption }
  | .outbound call => (call.exec s).1
  | .transactionInit n alloc flags resendCallback callback =>
    smcpTransactionInit s (.user n) alloc flags (resendCallback.map .user) (callback.map .user)
  | .transactionBegin n expiration => smcpTransactionBegin hooks s (.user n) expiration
  | .transactionEnd n => smcpTransactionEnd hooks s (.user n)
  | .transactionNewMsgId n msgId =>
    smcpTransactionNewMsgId hooks (s.log (.renamed (.user n) msgId s.store s.lastMsgId)) (.user n)
      msgId
  | .transactionTickle n => smcpTransactionTickle hooks s (.user n)
  | .getNextMsgId => (smcpGetNextMsgId s .other).1
  | .timerInit n callback cancel => smcpTimerInit s (.user n) (.user callback) cancel
  | .scheduleTimer n cms => (smcpScheduleTimer s (.user n) cms).1
  | .invalidateTimer n => smcpInvalidateTimer hooks s (.user n)
  | .observableUpdate context key => (smcpObservableUpdate hooks s context key).1
  | .observableTrigger context key => smcpObservableTrigger hooks s context key
  | .setDefaultRequestHandler handler => { s with requestHandler := handler }
  | .vhostAdd name func => (smcpVhostAdd s name func).1
  | .startAsyncResponse x dontAck => (smcpStartAsyncResponse s x dontAck).state
  | .beginAsyncResponse code x => (smcpOutboundBeginAsyncResponse s code x).1

/-- The states that a program can bring a new instance to, in surroundings of any kind. -/
def Reachable (s : Instance) : Prop :=
  ∃ now random sendResult, Reaches Op.exec (smcpCreate now random sendResult) s

/-! ## Every call takes steps of the machines -/

theorem same_setCode (s : Instance) (code : ℕ) : Same s (smcpOutboundSetCode s code) := by
  unfold smcpOutboundSetCode
  split_ifs <;> exact ⟨rfl⟩

theorem same_outboundCall (call : OutboundCall) (s : Instance) : Same s (call.exec s).1 := by
  cases call with
  | beginResponse code => exact same_beginResponse s code
  | setCode code => exact same_setCode s code
  | setToken token => exact same_setToken s token
  | setDestaddr sockaddr => exact same_setDestaddr s sockaddr
  | send => exact same_send s
  | quickResponse code body => exact same_quickResponse s code body
  | _ => exact ⟨rfl⟩

theorem evolves_renamed {hooks : Hooks} (hhooks : ∀ c u, Evolves u (hooks c u).1) (s : Instance)
    (h : TransactionPtr) (msgId : ℕ) :
    Evolves s (smcpTransactionNewMsgId hooks (s.log (.renamed h msgId s.store s.lastMsgId)) h
      msgId) := by
  intro hs
  have hs' : CallbacksOk (s.log (.renamed h msgId s.store s.lastMsgId)) := hs
  have hrename : Act s.world _ := .core s.world _ (.rename s.core h msgId) fun i hi =>
    .inl (TransactionStore.active_of_rename hi)
  exact .trans (.single hrename) (acts_newMsgId hhooks hs' h msgId)

theorem evolves_getNextMsgId (s : Instance) : Evolves s (smcpGetNextMsgId s .other).1 := by
  intro _
  obtain ⟨r, -, hworld⟩ := getNextMsgId_world s .other
  rw [hworld]
  exact .single (.core s.world _ (.draw s.core r) fun _ => .inl)

theorem quiet_userTimerInit (s : Instance) (n callback : ℕ) (cancel : Option ℕ) :
    Quiet s (smcpTimerInit s (.user n) (.user callback) cancel) := by
  apply quiet_timerInit
  intro h heq
  cases heq

theorem evolves_exec {hooks : Hooks} (hhooks : ∀ c u, Evolves u (hooks c u).1) (op : Op)
    (s : Instance) : Evolves s (op.exec hooks s) := by
  -- one case for each call
  cases op with
  | process arrival rest => exact evolves_process hhooks arrival rest
  | startPacket buffer packetLength => exact (same_startPacket s buffer packetLength).evolves
  | setSrcaddr sockaddr => exact (same_setSrcaddr s sockaddr).evolves
  | setDestaddr sockaddr => exact (same_inboundSetDestaddr s sockaddr).evolves
  | finishPacket => exact evolves_finishPacket hhooks
  | handleTimers => exact evolves_handleTimers hhooks
  | outbound call => exact (same_outboundCall call s).evolves
  | transactionInit n alloc flags resendCallback callback => 
    apply evolves_init
    intro i f heq
    cases heq
  | transactionBegin n expiration =>
    apply evolves_beginTransaction hhooks
    intro i heq
    cases heq
  | transactionEnd n => exact evolves_end hhooks _
  | transactionNewMsgId n msgId => exact evolves_renamed hhooks s _ _
  | transactionTickle n => exact evolves_tickle hhooks _
  | getNextMsgId => exact evolves_getNextMsgId s
  | timerInit n callback cancel => exact (quiet_userTimerInit s n callback cancel).evolves
  | scheduleTimer n cms => exact (quiet_scheduleTimer s _ _).evolves
  | invalidateTimer n => exact evolves_invalidateTimer hhooks _
  | observableUpdate context key => exact evolves_observableUpdate hhooks _ _
  | observableTrigger context key => exact evolves_observableTrigger hhooks _ _
  | vhostAdd name func =>
    unfold Op.exec smcpVhostAdd
    dsimp only
    split_ifs <;> exact Same.evolves ⟨rfl⟩
  | startAsyncResponse x dontAck => exact (same_startAsyncResponse s x dontAck).evolves
  | beginAsyncResponse code x => exact (same_beginAsyncResponse s code x).evolves
  | _ => exact Same.evolves ⟨rfl⟩

theorem evolves_of_reaches {s s' : Instance} (h : Reaches Op.exec s s') : Evolves s s' :=
  h.rel Evolves.refl (fun _ _ _ => Evolves.trans) fun _ op s hhooks => evolves_exec hhooks op s

theorem callbacksOk_create (now : Timeval) (random : ℕ → ℕ) (sendResult : ℕ → ℤ) :
    CallbacksOk (smcpCreate now random sendResult) :=
  ⟨fun _ => rfl, fun _ _ _ _ heq => Option.some_ne_none _ heq.symm⟩

/-- A run of the program is a run of the machines. -/
theorem Reachable.acts {s : Instance} (h : Reachable s) :
    ∃ now random sendResult, Acts (smcpCreate now random sendResult).world s.world := by
  obtain ⟨now, random, sendResult, hreaches⟩ := h
  exact ⟨now, random, sendResult, evolves_of_reaches hreaches (callbacksOk_create _ _ _)⟩

theorem Reachable.callbacksOk {s : Instance} (h : Reachable s) : CallbacksOk s := by
  obtain ⟨now, random, sendResult, hacts⟩ := h.acts
  exact hacts.callbacksOk (callbacksOk_create _ _ _)

theorem Reachable.steps {s : Instance} (h : Reachable s) :
    ∃ now random sendResult, Steps (smcpCreate now random sendResult).core s.core := by
  obtain ⟨now, random, sendResult, hacts⟩ := h.acts
  exact ⟨now, random, sendResult, hacts.core⟩

end Smcp
