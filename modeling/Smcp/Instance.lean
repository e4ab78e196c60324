import Smcp.Lib.LinkedTree
import Smcp.Coap.Encode

/-!
# The instance

`struct smcp_s` and what it points to, for the BSD build with the transaction tree, observing,
Block2 and virtual hosts, asserts off. One instance is modelled, so the current instance is it.

The fields of `struct smcp_transaction_s` are kept in two records: `TransactionStore` has what
decides membership in `self->transactions` (links, `msg_id`, `token`, `active`), `Transaction` the
rest. Calls through function pointers into the application go through `Hooks`.

`events`, `timerEvents`, `checks`, `observerEvents`, `sent` and `fault` are history: they record
what happened and no code reads them.
-/

namespace Smcp

open ByteMemory LinkedTree

/-! ## Constants -/

/-! Status codes of `smcp.h`. -/
def smcpStatusOk : ℤ := 0
def smcpStatusFailure : ℤ := -1
def smcpStatusInvalidArgument : ℤ := -2
def smcpStatusUnsupportedUri : ℤ := -4
def smcpStatusErrno : ℤ := -5
def smcpStatusMallocFailure : ℤ := -6
def smcpStatusTransactionInvalidated : ℤ := -7
def smcpStatusTimeout : ℤ := -8
def smcpStatusNotImplemented : ℤ := -9
def smcpStatusNotFound : ℤ := -10
def smcpStatusResponseNotAllowed : ℤ := -12
def smcpStatusMessageTooBig : ℤ := -17
def smcpStatusNotAllowed : ℤ := -18
def smcpStatusUriParseFailure : ℤ := -19
def smcpStatusWaitForDns : ℤ := -20
def smcpStatusBadOption : ℤ := -21
def smcpStatusDupe : ℤ := -22
def smcpStatusReset : ℤ := -23
def smcpStatusBadPacket : ℤ := -26

/-! Message types. -/
def coapTransTypeConfirmable : ℕ := 0
def coapTransTypeNonconfirmable : ℕ := 1
def coapTransTypeAck : ℕ := 2
def coapTransTypeReset : ℕ := 3

/-! Methods and result codes: `HTTP_TO_COAP_CODE(x)` is `x / 100 * 32 + x % 100`. -/
def coapMethodGet : ℕ := 1
def coapMethodPost : ℕ := 2
def coapMethodPut : ℕ := 3
def coapMethodDelete : ℕ := 4
def httpToCoapCode (x : ℕ) : ℕ := x / 100 * 32 + x % 100
def coapResult100 : ℕ := httpToCoapCode 100
def coapResult200 : ℕ := httpToCoapCode 200
def coapResult400 : ℕ := httpToCoapCode 400

/-- `COAP_CODE_IS_REQUEST`. -/
def coapCodeIsRequest (code : ℕ) : Bool := 0 < code && code < coapResult100

/-- `COAP_CODE_IS_RESULT`. -/
def coapCodeIsResult (code : ℕ) : Bool := code = 0 || coapResult100 ≤ code

/-! Option numbers. -/
def coapOptionUriHost : ℕ := 3
def coapOptionObserve : ℕ := 6
def coapOptionUriPort : ℕ := 7
def coapOptionUriPath : ℕ := 11
def coapOptionContentType : ℕ := 12
def coapOptionMaxAge : ℕ := 14
def coapOptionUriQuery : ℕ := 15
def coapOptionAccept : ℕ := 17
def coapOptionBlock2 : ℕ := 23
def coapOptionProxyUri : ℕ := 35
def coapOptionAuthenticate : ℕ := 65102

/-! Flags of a transaction. They are kept in a `uint8_t`, which has no room for
`SMCP_TRANSACTION_DELAY_START`. -/
def smcpTransactionAlwaysInvalidate : ℕ := 1 <<< 0
def smcpTransactionObserve : ℕ := 1 <<< 1
def smcpTransactionKeepalive : ℕ := 1 <<< 2
def smcpTransactionNoAutoEnd : ℕ := 1 <<< 3
def smcpTransactionDelayStart : ℕ := 1 <<< 8

/-- `flags & flag`. -/
def hasFlag (flags flag : ℕ) : Bool := flags &&& flag ≠ 0

def smcpMaxPacketLength : ℕ := 1032
def coapContentTypeUnknown : ℕ := 65535

/-! ## Addresses, times -/

/-- `struct sockaddr_in6`. -/
structure SockAddr where
  family : ℕ
  port : ℕ
  flowinfo : ℕ
  addr : Vector UInt8 16
  scopeId : ℕ
deriving DecidableEq

/-- The all-zero address. -/
def SockAddr.zero : SockAddr := ⟨0, 0, 0, Vector.replicate 16 0, 0⟩

instance : Inhabited SockAddr := ⟨SockAddr.zero⟩

/-- `SMCP_IS_ADDR_MULTICAST`: an IPv6 multicast address or a mapped IPv4 one. -/
def smcpIsAddrMulticast (a : Vector UInt8 16) : Bool :=
  a[0] == 0xFF ||
    ((a.toList.take 10).all (· == 0) && a[10] == 0xFF && a[11] == 0xFF && a[12] &&& 0xF0 == 0xE0)

/-- `struct timeval`. -/
structure Timeval where
  sec : ℤ
  usec : ℤ
deriving DecidableEq, Inhabited

/-! ## Function pointers -/

/-- A transaction object: one of the application's, or the one inside an observer. -/
inductive TransactionPtr where
  | user (n : ℕ)
  | observer (i : ℕ)
deriving DecidableEq

/-- A response callback with its context. -/
inductive ResponseFunc where
  | user (n : ℕ)
  | eventResponseHandler (observer : ℕ)
deriving DecidableEq

/-- A resend callback with its context. -/
inductive ResendFunc where
  | user (n : ℕ)
  | retrySendingEvent (observer : ℕ)
deriving DecidableEq

/-- A timer: the one inside a transaction, or one of the application's. -/
inductive TimerPtr where
  | ofTransaction (h : TransactionPtr)
  | user (n : ℕ)
deriving DecidableEq

/-- A timer callback with its context. -/
inductive TimerFunc where
  | transactionTimeout (h : TransactionPtr)
  | user (n : ℕ)
deriving DecidableEq

/-- A call into the application. -/
inductive Call where
  | request (handler : ℕ)
  | response (callback : ℕ) (statuscode : ℤ)
  | resend (callback : ℕ)
  | timer (callback : ℕ)
  | timerCancel (callback : ℕ)
deriving DecidableEq

/-! ## Transactions and timers -/

/-- The part of the transactions that makes up `self->transactions`. `inserted` counts
insertions; it bounds the number of nodes and so the length of every walk. -/
structure TransactionStore where
  links : Links TransactionPtr
  msgId : TransactionPtr → ℕ
  token : TransactionPtr → ℕ
  active : TransactionPtr → Bool
  inserted : ℕ

/-- The other fields of `struct smcp_transaction_s`. -/
structure Transaction where
  resendCallback : Option ResendFunc := none
  callback : Option ResponseFunc := none
  expiration : Timeval := default
  saddr : SockAddr := default
  lastObserve : ℕ := 0
  nextBlock2 : ℕ := 0
  sentCode : ℕ := 0
  flags : ℕ := 0
  attemptCount : ℕ := 0
  waitingForAsyncResponse : Bool := false
  shouldDealloc : Bool := false
  multicast : Bool := false
deriving DecidableEq, Inhabited

/-- `struct smcp_timer_s`. -/
structure Timer where
  next : Option TimerPtr := none
  prev : Option TimerPtr := none
  fireDate : Timeval := default
  callback : Option TimerFunc := none
  cancel : Option ℕ := none
deriving DecidableEq, Inhabited

/-- `self->timers` and all timers. `scheduled` counts insertions. -/
structure TimerList where
  head : Option TimerPtr
  timer : TimerPtr → Timer
  scheduled : ℕ

/-! ## Messages -/

/-- The fields of `struct coap_header_s`. -/
structure CoapHeader where
  version : ℕ := 0
  tt : ℕ := 0
  tokenLen : ℕ := 0
  code : ℕ := 0
  msgId : ℕ := 0
deriving DecidableEq, Inhabited

/-- The four bytes of a header. -/
def CoapHeader.bytes (h : CoapHeader) : List UInt8 :=
  [UInt8.ofNat (h.version * 64 + h.tt * 16 + h.tokenLen), UInt8.ofNat h.code,
    UInt8.ofNat (h.msgId % 256), UInt8.ofNat (h.msgId / 256)]

/-- `self->inbound`. Pointers into the packet are indices; `packet` is the memory it is in. -/
structure Inbound where
  packet : Option (ℕ → UInt8) := none
  packetLen : ℕ := 0
  lastOptionKey : ℕ := 0
  thisOption : Option ℕ := none
  contentPtr : ℕ := 0
  contentLen : ℕ := 0
  contentType : ℕ := 0
  wasSentToMulticast : Bool := false
  isFake : Bool := false
  isDupe : Bool := false
  hasObserveOption : Bool := false
  maxAge : ℤ := 0
  observeValue : ℕ := 0
  block2Value : ℕ := 0
  saddr : SockAddr := default
deriving Inhabited

/-- The bytes of the inbound packet; reading through a null pointer gives zeros. -/
def Inbound.bytes (i : Inbound) : ℕ → UInt8 := i.packet.getD fun _ => 0

/-- `self->outbound`. The header is kept as a record, so `packetBytes` is used from byte 4 on;
`contentPtr` is an index into it. -/
structure Outbound where
  header : CoapHeader := {}
  packetBytes : Buffer
  maxPacketLen : ℕ := 0
  contentPtr : ℕ := 0
  contentLen : ℕ := 0
  nextTid : ℕ := 0
  lastOptionKey : ℕ := 0
  saddr : SockAddr := default

/-- The first `n` bytes of the outbound packet. -/
def Outbound.bytes (o : Outbound) (n : ℕ) : List UInt8 :=
  (o.header.bytes ++ readBytes o.packetBytes.byte 4 (n - 4)).take n

/-- A message handed to the socket. -/
structure Datagram where
  dest : SockAddr
  bytes : List UInt8
deriving DecidableEq

/-! ## Duplicates, virtual hosts, observers -/

/-- An entry of `struct smcp_dupe_info_s`. -/
structure DupeEntry where
  hash : ℕ := 0
  source : SockAddr := default
  msgId : ℕ := 0
deriving DecidableEq, Inhabited

/-- `struct smcp_dupe_info_s`. `fresh` counts the messages that were entered. -/
structure DupeInfo where
  dupe : ℕ → DupeEntry
  dupeIndex : ℕ
  fresh : ℕ

/-- `struct smcp_vhost_s`, with the handler function and its context as one number. -/
structure Vhost where
  name : List UInt8
  func : ℕ
deriving DecidableEq

/-- `struct smcp_async_response_s`. -/
structure AsyncResponse where
  remoteSaddr : SockAddr := default
  requestLen : ℕ := 0
  request : ℕ → UInt8 := fun _ => 0

/-- An entry of `observer_table`, without its transaction. `next` is one more than an index. -/
structure Observer where
  observable : Option ℕ := none
  next : ℤ := 0
  key : ℕ := 0
  seq : ℕ := 0
  asyncResponse : AsyncResponse := {}

/-- `struct smcp_observable_s`. -/
structure Observable where
  hasInterface : Bool := false
  firstObserver : ℤ := 0
  lastObserver : ℤ := 0

/-! ## History -/

/-- What a message id is drawn for: a transaction that begins, a transaction that goes on with a
new id, or something else. -/
inductive DrawPurpose where
  | beginning (h : TransactionPtr)
  | renewing (h : TransactionPtr)
  | other
deriving DecidableEq

/-- What happened, with the state it happened in. -/
inductive Event where
  /-- `smcp_handle_response` was called for the message in `inbound`. -/
  | received (inbound : Inbound) (store : TransactionStore)
      (transaction : TransactionPtr → Transaction)
  /-- `smcp_handle_response` called the callback of `h` for the message in `inbound`. -/
  | responded (h : TransactionPtr) (inbound : Inbound) (store : TransactionStore)
      (transaction : Transaction)
  /-- `smcp_get_next_msg_id` gave `id`; before, `last_msg_id` was `lastMsgId` and the random source
  was about to give `random`. -/
  | drew (purpose : DrawPurpose) (store : TransactionStore) (lastMsgId random id : ℕ)
  /-- `smcp_transaction_begin` was called. -/
  | begun (h : TransactionPtr) (store : TransactionStore)
  /-- `smcp_transaction_init` was called. -/
  | initialized (h : TransactionPtr) (store : TransactionStore)
  /-- The application called `smcp_transaction_new_msg_id`. -/
  | renamed (h : TransactionPtr) (msgId : ℕ) (store : TransactionStore) (lastMsgId : ℕ)
  /-- `bt_insert` put `h` in the place of `old`. -/
  | replaced (h old : TransactionPtr)
  /-- The object of `h` was given back to the allocator. -/
  | freed (h : TransactionPtr)
  /-- `smcp_transaction_begin` was called for `h`, which was active or not. -/
  | began (h : TransactionPtr) (active : Bool) (transaction : Transaction)
  /-- `smcp_transaction_end` made `h` inactive, and `bt_remove` found `found` in its place. -/
  | ended (h : TransactionPtr) (found : Option TransactionPtr)
  /-- `h` was deleted, and its callback, if it had one, was called with
  `SMCP_STATUS_TRANSACTION_INVALIDATED`. -/
  | deleted (h : TransactionPtr) (called : Bool)
  /-- The callback of `h` was called for a response or a timeout. -/
  | called (h : TransactionPtr) (statuscode : ℤ)
  /-- An Empty message of type `tt` was taken to say that the response to `h` comes later. -/
  | acknowledged (h : TransactionPtr) (tt : ℕ)
  /-- A notification with the value `value` came for `h`. -/
  | notification (h : TransactionPtr) (value : ℕ) (transaction : Transaction)
  /-- It was handed to the callback. -/
  | delivered (h : TransactionPtr) (value : ℕ)
  /-- It was not; `ends` when the transaction is ended instead. -/
  | skipped (h : TransactionPtr) (value : ℕ) (ends : Bool)
  /-- The timer of `h` fired at the time `now`. -/
  | timedOut (h : TransactionPtr) (transaction : Transaction) (now : Timeval)
  /-- The resend callback of `h` is called, at the time `now`. -/
  | resent (h : TransactionPtr) (transaction : Transaction) (now : Timeval)
  /-- The resend callback of `h` returned. -/
  | resendReturned (h : TransactionPtr) (status : ℤ)
  /-- After a resend that went well: the transaction and the clock as they were before it, the
  attempts so far, the next two random numbers, and the delay until the next timeout. -/
  | backedOff (h : TransactionPtr) (transaction : Transaction) (now : Timeval)
      (attemptCount random random' : ℕ) (delay : ℤ)
  /-- An observing transaction that expired starts over. -/
  | restarted (h : TransactionPtr)
  /-- The timer of `h` fired and nothing was sent; it counts as an attempt all the same. -/
  | passed (h : TransactionPtr)
  /-- The callback of `h` has returned from a response: the attempts are counted from 0 again, and
  `waits` tells whether another response was announced. -/
  | answered (h : TransactionPtr) (waits : Bool)

/-- What happened to the timers. -/
inductive TimerEvent where
  /-- `smcp_schedule_timer` put the timer in the list. -/
  | scheduled (timer : TimerPtr) (fireDate : Timeval)
  /-- `smcp_invalidate_timer` was called. -/
  | invalidated (timer : TimerPtr)
  /-- `smcp_handle_timers` fired the timer at the time `now`. -/
  | fired (timer : TimerPtr) (fireDate now : Timeval)
  /-- The timer was cleared; `linked` when it looked scheduled. -/
  | cleared (timer : TimerPtr) (linked : Bool)
deriving DecidableEq

/-- A message that went through `smcp_inbound_dupe_check`, and what that said. -/
structure DupeCheck where
  tt : ℕ
  code : ℕ
  source : SockAddr
  msgId : ℕ
  isDupe : Bool
deriving DecidableEq

/-- What happened to the observers. -/
inductive ObserverEvent where
  /-- The entry `i` was taken into the list of the observable `context`, for a request of
  `requestLen` bytes without its content. -/
  | registered (context i requestLen : ℕ)
  /-- The observer `i` registered again. -/
  | renewed (i requestLen : ℕ)
  /-- `free_observer` took the entry `i` out of the list of `context`, which went from `first` to
  `last`. -/
  | released (context i : ℕ) (first last : ℤ)
deriving DecidableEq

/-! ## The instance -/

/-- `struct smcp_s` and its surroundings: the clock, the random numbers, the results of the
socket, the observer table and the observables. -/
structure Instance where
  now : Timeval
  random : ℕ → ℕ
  randomUsed : ℕ
  sendResult : ℕ → ℤ
  requestHandler : Option ℕ
  timers : TimerList
  store : TransactionStore
  transaction : TransactionPtr → Transaction
  currentTransaction : Option TransactionPtr
  isResponding : Bool
  didRespond : Bool
  isProcessingMessage : Bool
  forceCurrentOutboundCode : Bool
  lastMsgId : ℕ
  inbound : Inbound
  outbound : Outbound
  dupeInfo : DupeInfo
  vhosts : List Vhost
  observerTable : ℕ → Observer
  observables : ℕ → Observable
  sent : List Datagram
  events : List Event
  timerEvents : List TimerEvent
  checks : List DupeCheck
  observerEvents : List ObserverEvent
  fault : Bool

/-- The application: what it does to the instance when it is called, and what it returns. -/
def Hooks := Call → Instance → Instance × ℤ

namespace Instance

/-- Change the fields of one transaction. -/
def setTransaction (s : Instance) (h : TransactionPtr) (f : Transaction → Transaction) : Instance :=
  { s with transaction := Function.update s.transaction h (f (s.transaction h)) }

/-- Add to the history. -/
def log (s : Instance) (e : Event) : Instance := { s with events := e :: s.events }

/-- Add to the history of the timers. -/
def logTimer (s : Instance) (e : TimerEvent) : Instance :=
  { s with timerEvents := e :: s.timerEvents }

/-- Add to the history of the observers. -/
def logObserver (s : Instance) (e : ObserverEvent) : Instance :=
  { s with observerEvents := e :: s.observerEvents }

/-- `SMCP_FUNC_RANDOM_UINT32`. -/
def randomUint32 (s : Instance) : Instance × ℕ :=
  ({ s with randomUsed := s.randomUsed + 1 }, s.random s.randomUsed % 4294967296)

end Instance

/-- `smcp_create`: a cleared instance. The surroundings are arguments. -/
def smcpCreate (now : Timeval) (random : ℕ → ℕ) (sendResult : ℕ → ℤ) : Instance where
  now := now
  random := random
  randomUsed := 0
  sendResult := sendResult
  requestHandler := none
  timers := ⟨none, fun _ => {}, 0⟩
  store := ⟨⟨none, fun _ => none, fun _ => none, fun _ => none⟩, fun _ => 0, fun _ => 0,
    fun _ => false, 0⟩
  transaction := fun _ => {}
  currentTransaction := none
  isResponding := false
  didRespond := false
  isProcessingMessage := false
  forceCurrentOutboundCode := false
  lastMsgId := 0
  inbound := {}
  outbound := { packetBytes := ⟨fun _ => 0, 0⟩ }
  dupeInfo := ⟨fun _ => {}, 0, 0⟩
  vhosts := []
  observerTable := fun _ => {}
  observables := fun _ => {}
  sent := []
  events := []
  timerEvents := []
  checks := []
  observerEvents := []
  fault := false

end Smcp
