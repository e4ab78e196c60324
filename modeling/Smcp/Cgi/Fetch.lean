import Smcp.Cgi.Exchange
import Smcp.Lib.Run

/-!
# A client that fetches the output of a CGI command

What has been delivered, what is in the buffer, and what is still to be read make up the output.

* `CgiExchange.Stage`: how far the exchange is;
* `Stage.request`, `Stage.process`, `Stage.transmit`, `Stage.acknowledge`: the steps;
* `CgiExchange.cost`: what is left to do.
-/

namespace Smcp

open ByteMemory OptionFormat Run

namespace CgiExchange

/-! ## The invariant -/

section
variable (x : CgiExchange)

/-- The request in the slot of the client. -/
structure Holds (w : World) (r : CgiNodeRequest) : Prop where
  apart : x.Apart w.node
  slot_eq : w.node.requests x.slot = r
  active : x.Active r

/-- There is a block to send and maybe more, or what is left of the output. -/
def Offers (w : World) (r : CgiNodeRequest) : Prop :=
  (0 ≤ r.fdCmdStdout ∧ x.blockSize ≤ r.stdoutBuffer.length) ∨
    (r.fdCmdStdout < 0 ∧ r.stdoutBuffer.length < x.blockSize ∧ w.unread = [])

/-- How far the exchange is. What the client has, what is in the buffer, without the block that it
has received already, and what is still to be read make up the output. All blocks but the last are
full. -/
inductive Stage (w : World) : Prop
  /-- The client has not asked yet. -/
  | idle (hidle : x.Idle w.node) (hclient : w.client = {}) (hout : w.unread = x.output)
  /-- The node reads. -/
  | reading (r : CgiNodeRequest) (h : x.Holds w r) (hstate : r.state = .activeBlock2WaitFd)
      (hphase : w.client.phase = .waiting) (hblock : x.IsBlock r.block2 w.client.number)
      (hlt : w.client.number < 2 ^ 20) (hopen : 0 ≤ r.fdCmdStdout)
      (hbuffer : r.stdoutBuffer.length < x.blockSize)
      (hcount : w.client.content.length = w.client.number * x.blockSize)
      (hout : w.client.content ++ r.stdoutBuffer ++ w.unread = x.output)
  /-- It transmits the block. -/
  | sending (r : CgiNodeRequest) (h : x.Holds w r) (hstate : r.state = .activeBlock2WaitAck)
      (hphase : w.client.phase = .waiting) (hblock : x.IsBlock r.block2 w.client.number)
      (hlt : w.client.number < 2 ^ 20) (hoffers : x.Offers w r)
      (hcount : w.client.content.length = w.client.number * x.blockSize)
      (hout : w.client.content ++ r.stdoutBuffer ++ w.unread = x.output)
  /-- The client has received the block. -/
  | sent (r : CgiNodeRequest) (last : Bool) (h : x.Holds w r)
      (hstate : r.state = .activeBlock2WaitAck) (hphase : w.client.phase = .acknowledging last)
      (hblock : x.IsBlock r.block2 w.client.number) (hlt : w.client.number < 2 ^ 20)
      (hoffers : x.Offers w r) (hlast : last = true ↔ r.fdCmdStdout < 0)
      (hcount : last = false → w.client.content.length = (w.client.number + 1) * x.blockSize)
      (hout : w.client.content ++ r.stdoutBuffer.drop x.blockSize ++ w.unread = x.output)
  /-- It has acknowledged the block, and can ask for the next one. -/
  | asking (r : CgiNodeRequest) (number : ℕ) (h : x.Holds w r)
      (hstate : r.state = .activeBlock2WaitReq) (hphase : w.client.phase = .ready)
      (hnumber : w.client.number = number + 1) (hblock : x.IsBlock r.block2 number)
      (hlt : number < 2 ^ 20) (hopen : 0 ≤ r.fdCmdStdout)
      (hbuffer : x.blockSize ≤ r.stdoutBuffer.length)
      (hcount : w.client.content.length = w.client.number * x.blockSize)
      (hout : w.client.content ++ r.stdoutBuffer.drop x.blockSize ++ w.unread = x.output)
  /-- It has received the last block. -/
  | done (hphase : w.client.phase = .done) (hout : w.client.content = x.output)

/-- What is left to do: bytes to deliver, bytes to read, and the steps until the next block has been
delivered. -/
def cost (w : World) : ℕ :=
  10 * (x.output.length - w.client.content.length) + w.unread.length +
    match w.client.phase with
    | .ready => 4
    | .waiting => if (w.node.requests x.slot).state = .activeBlock2WaitFd then 3 else 2
    | .acknowledging last => if last then 1 else 5
    | .done => 0

/-- The steps that bring the exchange forward. -/
def Useful (op : Op) (w : World) : Prop :=
  match op with
  | .request .. => True
  | .process _ _ io _ _ =>
    w.client.phase = .waiting ∧ (w.node.requests x.slot).state = .activeBlock2WaitFd ∧
      io.stdoutReady = true
  | .transmit _ arrives => w.client.phase = .waiting ∧ arrives = true
  | .acknowledge .. => True
  | .other _ => False

/-- The exchange goes on, and if the step is useful it has less to do. -/
structure Advances (op : Op) (w : World) : Prop where
  stage : x.Stage (x.exec op w)
  cost_le : x.cost (x.exec op w) ≤ x.cost w
  cost_lt : x.Useful op w → x.cost (x.exec op w) < x.cost w

variable {x} {w : World} {r : CgiNodeRequest}

/-- A step that gets on keeps the stage and costs something. -/
theorem Advances.of_lt {op : Op} {w' : World} (hexec : x.exec op w = w') (hstage : x.Stage w')
    (hcost : x.cost w' < x.cost w) : x.Advances op w := by
  subst hexec
  exact ⟨hstage, hcost.le, fun _ => hcost⟩

/-- A step that is not useful. -/
theorem Advances.of_eq {op : Op} {w' : World} (hexec : x.exec op w = w') (hstage : x.Stage w')
    (hcost : x.cost w' = x.cost w) (huseless : ¬x.Useful op w) : x.Advances op w := by
  subst hexec
  exact ⟨hstage, hcost.le, fun huseful => absurd huseful huseless⟩

/-- As long as the pipe is open, there is a block. -/
theorem Offers.open_le (h : x.Offers w r) (hopen : 0 ≤ r.fdCmdStdout) :
    x.blockSize ≤ r.stdoutBuffer.length := by
  rcases h with ⟨-, hle⟩ | ⟨hclosed, -⟩
  · exact hle
  · omega

/-- The request of the client is the only one that is its own. -/
theorem Apart.set {node : CgiNode} (h : x.Apart node) (r : CgiNodeRequest) :
    x.Apart (node.set x.slot r) := by
  refine ⟨h.running, fun j hj => ?_⟩
  rw [CgiNode.set_requests, if_neg hj]
  exact h.others j hj

/-- The slot of the client has been stored. -/
theorem Apart.holds {node : CgiNode} (h : x.Apart node) (hactive : x.Active r)
    (hnode : w.node = node.set x.slot r) : x.Holds w r := by
  refine ⟨?_, ?_, hactive⟩
  · rw [hnode]
    exact h.set r
  · rw [hnode, CgiNode.set_self]

/-- Something that is not a response comes. -/
theorem receive_other {token : List UInt8} {c : BlockClient} {d : Datagram}
    (hcode : headerCode d.memory = 0) : c.receive token d = c := by
  unfold BlockClient.receive
  rw [if_neg]
  rintro ⟨-, h205, -⟩
  rw [hcode] at h205
  exact absurd h205 (by decide)

/-- A client that waits for nothing takes nothing. -/
theorem receive_notWaiting {token : List UInt8} {c : BlockClient} {d : Datagram}
    (hphase : c.phase ≠ .waiting) : c.receive token d = c := by
  unfold BlockClient.receive
  rw [if_neg]
  exact fun h => hphase h.1

/-- One datagram is sent. -/
theorem deliver_one {s s' : Instance} {d : Datagram} (h : s'.sent = s.sent ++ [d])
    (c : BlockClient) : x.deliver s s' c = c.receive x.token d := by
  unfold deliver
  rw [h, List.drop_left]
  rfl

/-- The client receives an answer that came at once. -/
theorem Arrives.receive_now {s : Instance} (h : x.Arrives s) {b : ℕ} (hb : b < 4294967296)
    {c : BlockClient} (hphase : c.phase = .waiting) {content : List UInt8}
    (hcontent : content.length ≤ 512) :
    c.receive x.token ⟨s.inbound.saddr,
        (blockMessage (replyMessage s.inbound (httpToCoapCode 205)) (some b) content).wire⟩ =
      ({ c with content := c.content ++ content } : BlockClient).next (!b.testBit 3) := by
  -- the answer has the token and is an acknowledgement
  have htoken : (replyMessage s.inbound (httpToCoapCode 205)).token = x.token := by
    show readBytes s.inbound.bytes 4 (headerTokenLen s.inbound.bytes) = x.token
    rw [h.header.tokenLen, h.header.token]
  have htt : (replyMessage s.inbound (httpToCoapCode 205)).header.tt = coapTransTypeAck := by
    show (if headerTt s.inbound.bytes = _ then _ else _) = _
    rw [h.header.tt]
    rfl
  -- a message with a block of 512 bytes at most is valid
  have hvalid : (blockMessage (replyMessage s.inbound (httpToCoapCode 205)) (some b)
      content).Valid := by
    apply blockMessage_valid rfl _ (show 0 < httpToCoapCode 205 by decide)
      (show httpToCoapCode 205 < 256 by decide) (headerMsgId_lt _) rfl _ hcontent
    · rw [htt]
      decide
    · rw [htoken]
      exact x.token_le
  have hreceive := receive_block hvalid rfl (fun v hv => by
    obtain rfl : b = v := Option.some.inj hv
    exact hb) hphase s.inbound.saddr
  -- so the client takes it
  rw [htoken, htt] at hreceive
  rw [hreceive]
  rfl

/-- The client receives a response that came later. -/
theorem Stored.receive {a : AsyncResponse} (h : x.Stored a) {msgId : ℕ} {block2 : Option ℕ}
    (hblock2 : ∀ v ∈ block2, v < 4294967296) {c : BlockClient} (hphase : c.phase = .waiting)
    {content : List UInt8} (hcontent : content.length ≤ 512) :
    c.receive x.token ⟨x.addr,
        (blockMessage (asyncMessage a (httpToCoapCode 205) msgId) block2 content).wire⟩ =
      { c with
        phase := .acknowledging (lastBit block2)
        content := c.content ++ content } := by
  -- the response has the token, and is confirmable
  have htoken : (asyncMessage a (httpToCoapCode 205) msgId).token = x.token := by
    show readBytes a.request 4 (headerTokenLen a.request) = x.token
    rw [h.header.tokenLen, h.header.token]
  have htt : (asyncMessage a (httpToCoapCode 205) msgId).header.tt = coapTransTypeConfirmable :=
    h.header.tt
  -- a message with a block of 512 bytes at most is valid
  have hvalid : (blockMessage (asyncMessage a (httpToCoapCode 205) msgId) block2 content).Valid := by
    apply blockMessage_valid rfl _ (show 0 < httpToCoapCode 205 by decide)
      (show httpToCoapCode 205 < 256 by decide) (Nat.mod_lt _ (by decide)) _ _ hcontent
    · rw [htt]
      decide
    · show headerTokenLen a.request = (readBytes a.request 4 (headerTokenLen a.request)).length
      rw [length_readBytes]
    · rw [htoken]
      exact x.token_le
  have hreceive := receive_block hvalid rfl hblock2 hphase x.addr
  -- so the client takes it
  rw [htoken, htt] at hreceive
  rw [hreceive]
  rfl

/-! ## Requests -/

/-- The request for the next block. -/
theorem Stage.request (h : x.Stage w) {env : CgiEnv} {now : ℤ} {fork : Fork} {s : Instance}
    (hlegal : x.Legal (.request env now fork s) w)
    (hexpected : x.Expected (.request env now fork s) w) :
    x.Advances (.request env now fork s) w := by
  obtain ⟨hready, hasks, hfork⟩ := hlegal
  obtain ⟨hroom, hsmall⟩ := hexpected
  obtain ⟨s', harrives, hsent, hlen, hhandler⟩ := hasks.handler_eq
  rw [← hlen] at hroom
  -- a response that comes later
  have hlater {r : CgiNodeRequest} {d : Datagram}
      (hnode : (handleRead env now fork w.node s' { block2 := x.block2 w.client.number }).node =
        w.node.set x.slot r)
      (hd : (handleRead env now fork w.node s' { block2 := x.block2 w.client.number }).smcp.sent =
        s'.sent ++ [d]) (hcode : headerCode d.memory = 0) :
      x.exec (.request env now fork s) w =
        { w with node := w.node.set x.slot r, client := { w.client with phase := .waiting } } := by
    unfold exec
    dsimp only
    rw [hhandler, hnode, deliver_one (by rw [hd, hsent]), receive_other hcode]
  -- from the next request to the reads
  have hcost {r : CgiNodeRequest} (hstate : r.state = .activeBlock2WaitFd) :
      x.cost
          { w with node := w.node.set x.slot r, client := { w.client with phase := .waiting } } <
        x.cost w := by
    unfold cost
    rw [hready]
    dsimp only
    rw [CgiNode.set_self, hstate, if_pos rfl]
    omega
  cases h with
  | idle hidle hclient hout =>
    have hnumber : w.client.number = 0 := by rw [hclient]
    rw [hnumber] at hlater
    obtain ⟨r, d, hnode, hactive, hstate, hblock2, hbuffer, hopen, hd, hcode⟩ :=
      harrives.first hroom hidle hfork
    refine .of_lt (hlater hnode hd hcode) ?_ (hcost hstate)
    apply Stage.reading r (hidle.apart.holds hactive rfl) hstate rfl
    · rw [hblock2, hnumber]
      exact isBlock_block2
    · rw [hnumber]
      decide
    · exact hopen
    · rw [hbuffer]
      exact x.blockSize_pos
    · rw [hclient]
      exact (Nat.zero_mul _).symm
    · rw [hbuffer, hclient]
      exact hout
  | asking r number hholds hstate hphase hnumber hblock hlt hopen hbuffer hcount hout =>
    have hnext := hasks.number_lt
    rw [hnumber] at hnext hlater
    have hsize : r.stdoutBuffer.length < 2 * x.blockSize ∨
        (r.stdoutBuffer.length = 2 * x.blockSize ∧ w.unread = []) := by
      have hdrained := hsmall (by omega)
      rwa [Drained, hholds.slot_eq] at hdrained
    rcases hsize with hless | ⟨htwo, hnone⟩
    · obtain ⟨r', d, hnode, hactive, hstate', hblock2, hbuffer', hfd, hd, hcode⟩ :=
        harrives.later hroom hholds.apart hholds.slot_eq hholds.active hstate
          hblock hnext hopen (by rw [List.length_drop]; omega)
      refine .of_lt (hlater hnode hd hcode) ?_ (hcost hstate')
      apply Stage.reading r' (hholds.apart.holds hactive rfl) hstate' rfl
      · rw [hblock2, hnumber]
        exact isBlock_block2
      · rw [hnumber]
        exact hnext
      · rw [hfd]
        exact hopen
      · rw [hbuffer', List.length_drop]
        omega
      · exact hcount
      · rw [hbuffer']
        exact hout
    · have hdrop : (r.stdoutBuffer.drop x.blockSize).length = x.blockSize := by
        rw [List.length_drop]
        omega
      have hd := harrives.laterNow env now fork hholds.apart
        hholds.slot_eq hholds.active hstate hblock hnext hopen (by omega)
      have hbit : (x.block2 (number + 1)).testBit 3 = false := by
        have hszx := x.szx_le
        rw [Nat.testBit_eq_decide_div_mod_eq, decide_eq_false_iff_not, block2]
        omega
      have hblock2 : x.IsBlock (x.block2 (number + 1)) (number + 1) := isBlock_block2
      have hlarge := hblock2.lt hnext
      have hlt512 := x.blockSize_le
      have hwhole : (r.stdoutBuffer.drop x.blockSize).take x.blockSize =
          r.stdoutBuffer.drop x.blockSize := List.take_of_length_le (by omega)
      rw [hwhole] at hd
      have hexec : (x.exec (.request env now fork s) w).client =
          { w.client with
            phase := .done
            content := w.client.content ++ r.stdoutBuffer.drop x.blockSize } := by
        unfold exec
        dsimp only
        rw [hhandler, hnumber, deliver_one (by rw [hd, hsent]),
          harrives.receive_now (by omega) rfl (by omega), hbit]
        rfl
      refine .of_lt rfl ?_ ?_
      · apply Stage.done
        · rw [hexec]
        · rw [hexec]
          dsimp only
          rw [hnone, List.append_nil] at hout
          exact hout
      · have hunread : (x.exec (.request env now fork s) w).unread = w.unread := rfl
        unfold cost
        rw [hexec, hunread, hready]
        dsimp only
        rw [List.length_append]
        omega
  | reading r hholds hstate hphase => exact absurd (hready.symm.trans hphase) (by decide)
  | sending r hholds hstate hphase => exact absurd (hready.symm.trans hphase) (by decide)
  | sent r last hholds hstate hphase =>
    rw [hphase] at hready
    cases hready
  | done hphase => exact absurd (hready.symm.trans hphase) (by decide)

/-! ## Reads -/

/-- The end of the pipe is not watched, and nothing is waited for. -/
theorem Holds.process_quiet (h : x.Holds w r) {env : CgiEnv} {now : ℤ} {io : CgiPipes} {n : ℕ}
    {s : Instance} (hnow : now ≤ r.expiration) (hstate1 : r.state ≠ .activeBlock1WaitFd)
    (hstate2 : r.state ≠ .activeBlock2WaitFd) {b : ℕ} (hblock : x.IsBlock r.block2 b)
    (hquiet : 0 ≤ r.fdCmdStdout → x.blockSize ≤ r.stdoutBuffer.length) :
    x.exec (.process env now io n s) w = w := by
  -- the pipe is closed, or a whole block is in the buffer: it is not watched
  have hwatched : (w.node.requests x.slot).watched.2 = false := by
    rw [h.slot_eq]
    unfold CgiNodeRequest.watched
    split
    · rfl
    · dsimp only
      rw [hblock.blockLen_eq, decide_eq_false_iff_not]
      rintro ⟨hopen, hless⟩
      have hle := hquiet hopen
      omega
  -- and `poll` finds nothing there
  have hready : (x.pipes w io n).stdoutReady = false := by
    show (io.stdoutReady && (w.node.requests x.slot).watched.2) = false
    rw [hwatched, Bool.and_false]
  have herror : (x.pipes w io n).stdoutError = false := by
    show (io.stdoutError && (w.node.requests x.slot).watched.2) = false
    rw [hwatched, Bool.and_false]
  unfold exec
  dsimp only
  rw [process_idle h.slot_eq hnow h.active.stdin hstate1 hstate2 hready herror, hready,
    if_neg (by simp)]

/-- A read gives bytes. -/
theorem readStdout_bytes {io : CgiPipes} {l : List UInt8} {b : ℕ} (hopen : 0 ≤ r.fdCmdStdout)
    (hready : io.stdoutReady = true) (herror : io.stdoutError = false)
    (hblock : x.IsBlock r.block2 b) (hread : io.read = some l) (hlen : l.length ≤ 2 * x.blockSize)
    (hl : l ≠ []) :
    (r.readStdout io).stdoutBuffer = r.stdoutBuffer ++ l ∧
      (r.readStdout io).fdCmdStdout = r.fdCmdStdout := by
  unfold CgiNodeRequest.readStdout
  rw [if_pos ⟨hopen, .inl hready⟩, hread, hblock.blockLen_eq, Option.map_some,
    List.take_of_length_le hlen]
  cases l with
  | nil => exact absurd rfl hl
  | cons b bytes => simp [herror]

/-- At the end of the output the pipe is closed. -/
theorem readStdout_end {io : CgiPipes} (hopen : 0 ≤ r.fdCmdStdout) (hready : io.stdoutReady = true)
    (hread : io.read = some []) :
    (r.readStdout io).stdoutBuffer = r.stdoutBuffer ∧ (r.readStdout io).fdCmdStdout = -1 := by
  unfold CgiNodeRequest.readStdout
  rw [if_pos ⟨hopen, .inl hready⟩, hread, Option.map_some, List.take_nil]
  exact ⟨rfl, rfl⟩

/-- Nothing is read. -/
theorem readStdout_none {io : CgiPipes} (hready : io.stdoutReady = false)
    (herror : io.stdoutError = false) : r.readStdout io = r := by
  unfold CgiNodeRequest.readStdout
  rw [if_neg (by simp [hready, herror])]

/-- The slot of the client, before its first request, is not looked at. -/
theorem freeSlot_state {node : CgiNode} {slots : List (Fin cgiNodeMaxRequests)}
    {ret : Option (Fin cgiNodeMaxRequests)} {i : Fin cgiNodeMaxRequests}
    (hret : ∀ j ∈ ret, (node.requests j).state = .inactive ∨ (node.requests j).state = .finished)
    (hfree : freeSlot node ret slots = some i) :
    (node.requests i).state = .inactive ∨ (node.requests i).state = .finished := by
  induction slots generalizing ret with
  | nil => exact hret i hfree
  | cons j slots ih =>
    unfold freeSlot at hfree
    split at hfree
    · next hj =>
      obtain rfl : j = i := Option.some.inj hfree
      exact .inl hj
    · next hj =>
      apply ih _ hfree
      intro k hk
      obtain rfl : j = k := Option.some.inj hk
      exact .inr hj
    · exact ih hret hfree

/-- Nobody has asked for anything. -/
theorem Idle.process (h : x.Idle w.node) {env : CgiEnv} {now : ℤ} {io : CgiPipes} {n : ℕ}
    {s : Instance} : x.exec (.process env now io n s) w = w := by
  have hstate := freeSlot_state (fun j hj => by cases hj) h.free
  have hready : (x.pipes w io n).stdoutReady = false := by
    show (io.stdoutReady && (w.node.requests x.slot).watched.2) = false
    unfold CgiNodeRequest.watched
    rw [if_pos hstate, Bool.and_false]
  unfold exec
  dsimp only
  rw [hready, if_neg (by simp)]
  unfold cgiNodeProcessRequest
  rw [if_pos hstate]

/-- The node reads. -/
theorem Stage.processReading (r : CgiNodeRequest) (h : x.Holds w r)
    (hstate : r.state = .activeBlock2WaitFd) (hphase : w.client.phase = .waiting)
    (hblock : x.IsBlock r.block2 w.client.number) (hlt : w.client.number < 2 ^ 20)
    (hopen : 0 ≤ r.fdCmdStdout) (hbuffer : r.stdoutBuffer.length < x.blockSize)
    (hcount : w.client.content.length = w.client.number * x.blockSize)
    (hout : w.client.content ++ r.stdoutBuffer ++ w.unread = x.output)
    {env : CgiEnv} {now : ℤ} {io : CgiPipes} {n : ℕ} {s : Instance}
    (hlegal : x.Legal (.process env now io n s) w) (hnow : now ≤ r.expiration) :
    x.Advances (.process env now io n s) w := by
  obtain ⟨hcallbacks, -, herror, hpos, hn⟩ := hlegal
  have hwatched : (w.node.requests x.slot).watched.2 = true := by
    rw [h.slot_eq]
    unfold CgiNodeRequest.watched
    rw [if_neg (by simp [hstate])]
    dsimp only
    rw [hblock.blockLen_eq, decide_eq_true_eq]
    exact ⟨hopen, hbuffer⟩
  have hready : (x.pipes w io n).stdoutReady = io.stdoutReady := by
    show (io.stdoutReady && (w.node.requests x.slot).watched.2) = io.stdoutReady
    rw [hwatched, Bool.and_true]
  have herror' : (x.pipes w io n).stdoutError = false := by
    show (io.stdoutError && (w.node.requests x.slot).watched.2) = false
    rw [herror, Bool.false_and]
  obtain ⟨r', hnode, hactive, hblock', hbuffer', hfd, hstate'⟩ := process_waitFd (s := s)
    h.slot_eq h.active hnow hstate hblock hcallbacks
  have hexec : x.exec (.process env now io n s) w =
      { w with
        node := w.node.set x.slot r'
        unread := if io.stdoutReady then w.unread.drop n else w.unread } := by
    unfold exec
    dsimp only
    rw [hready, h.slot_eq, hnode]
    simp only [hnow, and_true]
  rw [← hblock'] at hblock
  have hholds {unread : List UInt8} :
      x.Holds { w with node := w.node.set x.slot r', unread := unread } r' :=
    h.apart.holds hactive rfl
  have hcost {unread : List UInt8} :
      x.cost { w with node := w.node.set x.slot r', unread := unread } =
        10 * (x.output.length - w.client.content.length) + unread.length +
          if r'.state = .activeBlock2WaitFd then 3 else 2 := by
    unfold cost
    dsimp only
    rw [hphase, CgiNode.set_self]
  have hcost₀ : x.cost w =
      10 * (x.output.length - w.client.content.length) + w.unread.length + 3 := by
    unfold cost
    rw [hphase]
    dsimp only
    rw [h.slot_eq, hstate, if_pos rfl]
  cases hio : io.stdoutReady with
  | false =>
    -- nothing to read yet
    rw [hio] at hready
    rw [hio, if_neg (by decide)] at hexec
    rw [readStdout_none hready herror'] at hbuffer' hfd
    rw [hbuffer', hfd, if_neg (by omega)] at hstate'
    refine .of_eq hexec ?_ ?_ ?_
    · apply Stage.reading r' hholds hstate' hphase hblock hlt
      · rw [hfd]
        exact hopen
      · rw [hbuffer']
        exact hbuffer
      · exact hcount
      · rw [hbuffer']
        exact hout
    · rw [hcost₀]
      exact hcost.trans (by rw [if_pos hstate'])
    · rintro ⟨-, -, huseful⟩
      rw [hio] at huseful
      cases huseful
  | true =>
    rw [hio, if_pos rfl] at hexec
    rw [hio] at hready
    by_cases hend : w.unread.take n = []
    · -- the end of the output
      have hunread : w.unread = [] := by
        rcases List.take_eq_nil_iff.1 hend with hzero | hnil
        · omega
        · exact hnil
      have hread : (x.pipes w io n).read = some [] := by
        rw [← hend]
        rfl
      obtain ⟨hbuffer₁, hfd₁⟩ := readStdout_end hopen hready hread
      rw [hbuffer₁] at hbuffer'
      rw [hfd₁] at hfd
      rw [if_pos (.inr (by omega))] at hstate'
      rw [hunread, List.drop_nil, ← hunread] at hexec
      refine .of_lt hexec ?_ ?_
      · apply Stage.sending r' hholds hstate' hphase hblock hlt
        · refine .inr ⟨by omega, ?_, hunread⟩
          rw [hbuffer']
          exact hbuffer
        · exact hcount
        · rw [hbuffer']
          exact hout
      · rw [hcost₀]
        refine hcost.trans_lt ?_
        rw [hstate', if_neg (by decide)]
        omega
    · have hread : (x.pipes w io n).read = some (w.unread.take n) := rfl
      have hlen : (w.unread.take n).length ≤ 2 * x.blockSize :=
        (List.length_take_le _ _).trans hn
      obtain ⟨hbuffer₁, hfd₁⟩ := readStdout_bytes hopen hready herror' (hblock' ▸ hblock) hread
        hlen hend
      rw [hbuffer₁] at hbuffer'
      rw [hfd₁] at hfd
      have hout' : w.client.content ++ r'.stdoutBuffer ++ w.unread.drop n = x.output := by
        rw [hbuffer', ← hout]
        simp only [List.append_assoc, List.take_append_drop]
      have hless : (w.unread.drop n).length < w.unread.length := by
        have hne : w.unread ≠ [] := fun hnil => hend (by rw [hnil, List.take_nil])
        have hlength := List.length_pos_iff.2 hne
        rw [List.length_drop]
        omega
      refine .of_lt hexec ?_ ?_
      · by_cases hfull : x.blockSize ≤ r'.stdoutBuffer.length
        · rw [if_pos (.inl hfull)] at hstate'
          exact .sending r' hholds hstate' hphase hblock hlt (.inl ⟨by omega, hfull⟩) hcount hout'
        · rw [if_neg (by omega)] at hstate'
          exact .reading r' hholds hstate' hphase hblock hlt (by omega) (by omega) hcount hout'
      · rw [hcost₀]
        refine hcost.trans_lt ?_
        split_ifs <;> omega

/-- The main loop looks after the pipes. -/
theorem Stage.process (h : x.Stage w) {env : CgiEnv} {now : ℤ} {io : CgiPipes} {n : ℕ}
    {s : Instance} (hlegal : x.Legal (.process env now io n s) w)
    (hexpected : x.Expected (.process env now io n s) w) :
    x.Advances (.process env now io n s) w := by
  have hnow : now ≤ (w.node.requests x.slot).expiration := hexpected
  -- a step that changes nothing, because the pipe is not read
  have hquiet (heq : x.exec (.process env now io n s) w = w)
      (hwaits : w.client.phase = .waiting →
        (w.node.requests x.slot).state ≠ .activeBlock2WaitFd) :
      x.Advances (.process env now io n s) w := by
    apply Advances.of_eq heq h rfl
    rintro ⟨hphase, hstate, -⟩
    exact hwaits hphase hstate
  cases h with
  | idle hidle hclient hout =>
    apply hquiet hidle.process
    rw [hclient]
    exact fun hphase => by cases hphase
  | reading r hholds hstate hphase hblock hlt hopen hbuffer hcount hout =>
    rw [hholds.slot_eq] at hnow
    exact Stage.processReading r hholds hstate hphase hblock hlt hopen hbuffer hcount hout hlegal hnow
  | sending r hholds hstate hphase hblock hlt hoffers hcount hout =>
    rw [hholds.slot_eq] at hnow hquiet
    apply hquiet (hholds.process_quiet hnow (by rw [hstate]; decide) (by rw [hstate]; decide) hblock
      hoffers.open_le)
    rw [hstate]
    exact fun _ => by decide
  | sent r last hholds hstate hphase hblock hlt hoffers hlast hcount hout =>
    rw [hholds.slot_eq] at hnow hquiet
    apply hquiet (hholds.process_quiet hnow (by rw [hstate]; decide) (by rw [hstate]; decide) hblock
      hoffers.open_le)
    rw [hstate]
    exact fun _ => by decide
  | asking r number hholds hstate hphase hnumber hblock hlt hopen hbuffer hcount hout =>
    rw [hholds.slot_eq] at hnow hquiet
    apply hquiet (hholds.process_quiet hnow (by rw [hstate]; decide) (by rw [hstate]; decide) hblock
      fun _ => hbuffer)
    rw [hstate]
    exact fun _ => by decide
  | done hphase hout =>
    have hclient : (x.exec (.process env now io n s) w).client = w.client := rfl
    have hunread : (x.exec (.process env now io n s) w).unread.length ≤ w.unread.length := by
      unfold exec
      dsimp only
      split_ifs
      · rw [List.length_drop]
        omega
      · exact le_rfl
    refine ⟨.done hphase hout, ?_, ?_⟩
    · unfold cost
      rw [hclient, hphase]
      dsimp only
      omega
    · rintro ⟨hwaiting, -⟩
      exact absurd (hphase.symm.trans hwaiting) (by decide)

/-! ## Transmissions and acknowledgements -/

/-- A client that does not wait takes nothing. -/
theorem deliver_notWaiting {s s' : Instance} {c : BlockClient} (hphase : c.phase ≠ .waiting) :
    x.deliver s s' c = c := by
  unfold deliver
  induction s'.sent.drop s.sent.length with
  | nil => rfl
  | cons d ds ih => rw [List.foldl_cons, receive_notWaiting hphase, ih]

/-- The M bit tells whether the pipe is open. -/
theorem Offers.hasMore_eq (h : x.Offers w r) (hblock : x.IsBlock r.block2 w.client.number) :
    r.hasMore = decide (0 ≤ r.fdCmdStdout) := by
  unfold CgiNodeRequest.hasMore
  rw [hblock.blockLen_eq]
  rcases h with ⟨hopen, -⟩ | ⟨hclosed, hless, -⟩
  · simp [hopen]
  · simp [not_le.2 hclosed, not_lt.2 hless.le]

/-- The transaction transmits the block. -/
theorem Stage.transmit (h : x.Stage w) {s : Instance} {arrives : Bool}
    (hlegal : x.Legal (.transmit s arrives) w) : x.Advances (.transmit s arrives) w := by
  obtain ⟨hwait, hs⟩ := hlegal
  -- the client does not listen, or there is nothing to hear
  have hdeaf (hphase : w.client.phase ≠ .waiting ∨ arrives = false) :
      x.exec (.transmit s arrives) w =
        { w with node := (cgiNodeAsyncResendResponse w.node s x.slot).node } := by
    unfold exec
    dsimp only
    rcases hphase with hphase | rfl
    · rw [deliver_notWaiting hphase, ite_self]
    · rw [if_neg (by decide)]
  cases h with
  | idle hidle hclient hout =>
    have hstate := freeSlot_state (fun j hj => by cases hj) hidle.free
    rw [hwait] at hstate
    simp at hstate
  | reading r hholds hstate hphase hblock hlt hopen hbuffer hcount hout =>
    rw [hholds.slot_eq, hstate] at hwait
    cases hwait
  | sending r hholds hstate hphase hblock hlt hoffers hcount hout =>
    obtain ⟨block2, msgId, b, hsent, hlast, hbound, hnode, hblock'⟩ :=
      resend_sends hs hholds.slot_eq hholds.active hstate hblock hlt
    have hactive : x.Active { r with block2 := b } :=
      ⟨hholds.active.stored, hholds.active.transaction, hholds.active.block1, hholds.active.stdin⟩
    cases arrives with
    | false =>
      have hexec := hdeaf (.inr rfl)
      rw [hnode] at hexec
      refine .of_eq hexec ?_ ?_ fun huseful => absurd huseful.2 (by decide)
      · exact .sending { r with block2 := b } (hholds.apart.holds hactive rfl) hstate hphase hblock'
          hlt hoffers hcount hout
      · unfold cost
        dsimp only
        rw [CgiNode.set_self, hholds.slot_eq]
    | true =>
      have hlength : (r.stdoutBuffer.take x.blockSize).length ≤ 512 :=
        (List.length_take_le _ _).trans x.blockSize_le
      have hexec : x.exec (.transmit s true) w =
          { w with
            node := w.node.set x.slot { r with block2 := b }
            client :=
              { w.client with
                phase := .acknowledging (lastBit block2)
                content := w.client.content ++ r.stdoutBuffer.take x.blockSize } } := by
        unfold exec
        dsimp only
        rw [hnode, if_pos rfl, deliver_one hsent, hholds.active.stored.receive hbound hphase hlength]
      rw [hlast, hoffers.hasMore_eq hblock] at hexec
      have hout' : w.client.content ++ r.stdoutBuffer.take x.blockSize ++
          r.stdoutBuffer.drop x.blockSize ++ w.unread = x.output := by
        rw [← hout]
        rw [List.append_assoc w.client.content, List.take_append_drop]
      have hfull (hopen : 0 ≤ r.fdCmdStdout) :
          (w.client.content ++ r.stdoutBuffer.take x.blockSize).length =
            (w.client.number + 1) * x.blockSize := by
        rw [List.length_append, hcount, List.length_take, Nat.min_eq_left (hoffers.open_le hopen),
          Nat.succ_mul]
      refine .of_lt hexec ?_ ?_
      · refine .sent { r with block2 := b } (!decide (0 ≤ r.fdCmdStdout))
          (hholds.apart.holds hactive rfl) hstate rfl hblock' hlt hoffers ?_ ?_ hout'
        · simp
        · intro hmore
          apply hfull
          simpa using hmore
      · have hle := congrArg List.length hout'
        have hpos : 16 ≤ x.blockSize := by
          unfold blockSize
          calc 16 = 2 ^ 4 := by decide
            _ ≤ 2 ^ (x.szx + 4) := Nat.pow_le_pow_right (by decide) (by omega)
        simp only [List.length_append] at hle
        unfold cost
        rw [hphase, hholds.slot_eq, hstate]
        dsimp only
        rw [List.length_append, if_neg (show ¬CgiNodeState.activeBlock2WaitAck = _ by decide)]
        by_cases hopen : 0 ≤ r.fdCmdStdout
        · have hgrow : (r.stdoutBuffer.take x.blockSize).length = x.blockSize := by
            rw [List.length_take, Nat.min_eq_left (hoffers.open_le hopen)]
          simp only [hopen, decide_true, Bool.not_true, Bool.false_eq_true, ↓reduceIte]
          omega
        · simp only [hopen, decide_false, Bool.not_false, ↓reduceIte]
          omega
  | sent r last hholds hstate hphase hblock hlt hoffers hlast hcount hout =>
    have hne : w.client.phase ≠ .waiting := by simp [hphase]
    obtain ⟨-, -, b, -, -, -, hnode, hblock'⟩ :=
      resend_sends hs hholds.slot_eq hholds.active hstate hblock hlt
    have hexec := hdeaf (.inl hne)
    rw [hnode] at hexec
    refine .of_eq hexec ?_ ?_ fun huseful => hne huseful.1
    · refine .sent { r with block2 := b } last (hholds.apart.holds ?_ rfl) hstate hphase hblock'
        hlt hoffers hlast hcount hout
      exact ⟨hholds.active.stored, hholds.active.transaction, hholds.active.block1,
        hholds.active.stdin⟩
    · unfold cost
      rw [hphase]
  | asking r number hholds hstate hphase hnumber hblock hlt hopen hbuffer hcount hout =>
    rw [hholds.slot_eq, hstate] at hwait
    cases hwait
  | done hphase hout =>
    have hne : w.client.phase ≠ .waiting := by
      rw [hphase]
      decide
    refine .of_eq (hdeaf (.inl hne)) (.done hphase hout) ?_ fun huseful => hne huseful.1
    unfold cost
    rw [hphase]

/-- The acknowledgement arrives. -/
theorem Stage.acknowledge (h : x.Stage w) {env : CgiEnv} {s : Instance}
    (hlegal : x.Legal (.acknowledge env s) w) : x.Advances (.acknowledge env s) w := by
  obtain ⟨last, hack⟩ := hlegal
  have hexec : x.exec (.acknowledge env s) w =
      { w with
        node := (cgiNodeAsyncAckHandler env w.node s x.slot).node
        client := w.client.next last } := by
    unfold exec
    dsimp only
    rw [hack]
  cases h with
  | idle hidle hclient hout =>
    rw [hclient] at hack
    cases hack
  | reading r hholds hstate hphase => exact absurd (hphase.symm.trans hack) (by simp)
  | sending r hholds hstate hphase => exact absurd (hphase.symm.trans hack) (by simp)
  | sent r last' hholds hstate hphase hblock hlt hoffers hlast hcount hout =>
    obtain rfl : last' = last := by
      rw [hphase] at hack
      exact BlockPhase.acknowledging.inj hack
    cases last' with
    | true =>
      -- nothing is left
      have hclosed : r.fdCmdStdout < 0 := hlast.1 rfl
      obtain ⟨hopen, -⟩ | ⟨-, hless, hunread⟩ := hoffers
      · omega
      rw [hunread, List.drop_of_length_le hless.le, List.append_nil, List.append_nil] at hout
      refine .of_lt hexec (.done rfl hout) ?_
      unfold cost
      rw [hack]
      simp [BlockClient.next]
    | false =>
      have hopen : 0 ≤ r.fdCmdStdout := by
        by_contra hclosed
        exact absurd (hlast.2 (by omega)) (by decide)
      obtain ⟨fd, hnode⟩ := ackHandler_open (s := s) hholds.slot_eq
        hholds.active hstate hopen
      rw [hnode] at hexec
      refine .of_lt hexec ?_ ?_
      · refine .asking { r with fdCmdStdin := fd, state := .activeBlock2WaitReq } w.client.number
          (hholds.apart.holds ?_ rfl) rfl rfl rfl hblock hlt hopen (hoffers.open_le hopen)
          (hcount rfl) hout
        exact ⟨hholds.active.stored, hholds.active.transaction, hholds.active.block1,
          hholds.active.stdin⟩
      · unfold cost
        rw [hack]
        simp [BlockClient.next]
  | asking r number hholds hstate hphase => exact absurd (hphase.symm.trans hack) (by simp)
  | done hphase => exact absurd (hphase.symm.trans hack) (by simp)

/-- Other requests go on. -/
theorem Stage.other (h : x.Stage w) {node : CgiNode} (hlegal : x.Legal (.other node) w) :
    x.Advances (.other node) w := by
  obtain ⟨hapart, hslot, hidle'⟩ := hlegal
  have hholds {r : CgiNodeRequest} (hholds : x.Holds w r) : x.Holds { w with node := node } r :=
    ⟨hapart, hslot.trans hholds.slot_eq, hholds.active⟩
  refine .of_eq rfl ?_ ?_ id
  · cases h with
    | idle hidle hclient hout =>
      refine .idle (hidle' ?_ ?_) hclient hout
      · rw [hclient]
      · rw [hclient]
    | reading r h hstate hphase hblock hlt hopen hbuffer hcount hout =>
      exact .reading r (hholds h) hstate hphase hblock hlt hopen hbuffer hcount hout
    | sending r h hstate hphase hblock hlt hoffers hcount hout =>
      exact .sending r (hholds h) hstate hphase hblock hlt hoffers hcount hout
    | sent r last h hstate hphase hblock hlt hoffers hlast hcount hout =>
      exact .sent r last (hholds h) hstate hphase hblock hlt hoffers hlast hcount hout
    | asking r number h hstate hphase hnumber hblock hlt hopen hbuffer hcount hout =>
      exact .asking r number (hholds h) hstate hphase hnumber hblock hlt hopen hbuffer hcount hout
    | done hphase hout => exact .done hphase hout
  · unfold cost exec
    dsimp only
    rw [hslot]

/-- Every step. -/
theorem Stage.advances (h : x.Stage w) (op : Op) (hlegal : x.Legal op w)
    (hexpected : x.Expected op w) : x.Advances op w := by
  cases op with
  | request env now fork s => exact h.request hlegal hexpected
  | process env now io n s => exact h.process hlegal hexpected
  | transmit s arrives => exact h.transmit hlegal
  | acknowledge env s => exact h.acknowledge hlegal
  | other node => exact h.other hlegal

/-! ## What can happen next -/

section
variable (x : CgiExchange)

/-- The request for a block. -/
def requestMessage (number : ℕ) : Message :=
  blockMessage
    { header := { version := coapVersion, tt := coapTransTypeConfirmable, code := coapMethodGet,
                  tokenLen := x.token.length, msgId := 0 }
      token := x.token
      dest := default
      options := []
      content := [] }
    (some (x.block2 number)) []

/-- It has arrived. -/
def arrival (number : ℕ) : Instance :=
  let wire := (x.requestMessage number).wire
  { smcpCreate default (fun _ => 0) fun _ => 1 with
    isProcessingMessage := true
    inbound := Inbound.resetNextOption
      { packet := some (ofList wire fun _ => 0), packetLen := wire.length, saddr := x.addr } }

end

/-- A transaction transmits. -/
def transmission : Instance :=
  { smcpCreate default (fun _ => 0) fun _ => 1 with currentTransaction := some (.user 0) }

theorem transmits_transmission : Transmits transmission :=
  ⟨rfl, rfl,
    congrArg (AutoOptions.mk 0) (show hasFlag ({} : Transaction).flags _ = false by decide),
    fun _ => show (0 : ℤ) < 1 by decide⟩

variable {number : ℕ}

/-- The request of the client is one that can be sent. -/
theorem requestMessage_valid : (x.requestMessage number).Valid :=
  blockMessage_valid rfl (show coapTransTypeConfirmable < 4 by decide)
    (show 0 < coapMethodGet by decide) (show coapMethodGet < 256 by decide)
    (show 0 < 65536 by decide) rfl x.token_le (show 0 ≤ 512 by decide)

variable (number) in
/-- It fits into the buffer of an asynchronous response. -/
theorem requestMessage_length :
    4 + x.token.length ≤ (x.requestMessage number).wire.length ∧
      (x.requestMessage number).wire.length ≤ 80 := by
  have htoken := x.token_le
  have hvalue := length_uintOptionValue_le (x.block2 number)
  have hoption := length_optionBytes_short (d := coapOptionBlock2 - 0)
    (v := uintOptionValue (x.block2 number)) (by decide) (by omega)
  have hwire : (x.requestMessage number).wire.length =
      4 + x.token.length + (optionBytes (coapOptionBlock2 - 0)
        (uintOptionValue (x.block2 number))).length := by
    simp only [requestMessage, blockMessage, Message.wire, contentTail, encode, CoapHeader.bytes,
      List.length_append, List.length_cons, List.length_nil, Option.map_some, Option.toList_some,
      List.append_nil, ↓reduceIte, Nat.zero_add]
  rw [hwire, hoption]
  split_ifs <;> omega

/-- The request is what the node expects. -/
theorem asks_arrival (hlt : number < 2 ^ 20) : x.Asks (x.arrival number) number := by
  -- the message of the client is valid, and its fields are read back
  have hvalid : (x.requestMessage number).Valid := x.requestMessage_valid
  obtain ⟨hinside, hlen⟩ := x.requestMessage_length number
  have hread := readBytes_ofList (x.requestMessage number).wire fun _ => 0
  obtain ⟨-, htt, htl, hcode, -, htoken⟩ := hvalid.header_read hread
  have hb : x.block2 number < 4294967296 := by
    have hblock2 : x.IsBlock (x.block2 number) number := isBlock_block2
    have hbound := hblock2.lt hlt
    omega
  -- the options of the message are those that the source iterates over
  have hsplits := hvalid.splits
  rw [← hread] at hsplits
  have hahead := ahead_resetNextOption
    (i :=
      { packet := some (ofList (x.requestMessage number).wire fun _ => 0)
        packetLen := (x.requestMessage number).wire.length
        saddr := x.addr })
    (hvalid.verified _) (show (x.requestMessage number).wire.length < 65536 by omega) hsplits
  rw [withKeys_deltas hvalid.ordered] at hahead
  have hoptions : (x.arrival number).inbound.readOptions
      ((x.arrival number).inbound.packetLen + 1) =
        [(coapOptionBlock2, uintOptionValue (x.block2 number))] := by
    apply hahead.readOptions
    · intro o ho
      obtain rfl := List.mem_singleton.1 ho
      show coapOptionBlock2 ≠ coapOptionInvalid
      decide
    · show 1 < (x.requestMessage number).wire.length + 1
      omega
  have hheader : x.Header (x.arrival number).inbound.bytes := ⟨htt, hcode, htl, htoken⟩
  refine ⟨⟨rfl, hheader, hinside, rfl, rfl, rfl, rfl, rfl, rfl, rfl, rfl,
    fun _ => show (0 : ℤ) < 1 by decide⟩, ?_, hlt⟩
  have hvalue := length_uintOptionValue_le (x.block2 number)
  have hdecode := decodeUint_uintOptionValue hb
  unfold decodeUint at hdecode
  rw [hoptions, readBlockOptions, if_pos rfl, blockOptionValue,
    if_pos (show (uintOptionValue (x.block2 number)).length < 256 by omega), hdecode]
  rfl

/-- As long as the client has not received the last block, something can bring the exchange forward,
and it is as expected if there is little output in the buffer. -/
theorem Stage.enabled (h : x.Stage w) (hnotDone : w.client.phase ≠ .done)
    (hsize : x.output.length < 2 ^ 20 * x.blockSize) :
    ∃ op, x.Legal op w ∧ x.Useful op w ∧ (x.Drained w → x.Expected op w) := by
  -- the request for a block
  have hrequest (hready : w.client.phase = .ready) (hlt : w.client.number < 2 ^ 20) :
      ∃ op, x.Legal op w ∧ x.Useful op w ∧ (x.Drained w → x.Expected op w) :=
    ⟨.request quietEnv 0 ⟨1, 0, 0⟩ (x.arrival w.client.number),
      ⟨hready, x.asks_arrival hlt, by decide⟩, trivial,
      fun hdrained => ⟨(x.requestMessage_length _).2, fun _ => hdrained⟩⟩
  cases h with
  | idle hidle hclient hout =>
    apply hrequest
    · rw [hclient]
    · rw [hclient]
      decide
  | reading r hholds hstate hphase =>
    refine ⟨.process quietEnv (w.node.requests x.slot).expiration
      ⟨false, false, true, false, none, none⟩ 1 (x.arrival 0), ⟨rfl, rfl, rfl, by decide, ?_⟩,
      ⟨hphase, ?_, rfl⟩, fun _ => le_rfl⟩
    · have hpos := x.blockSize_pos
      omega
    · rw [hholds.slot_eq]
      exact hstate
  | sending r hholds hstate hphase =>
    refine ⟨.transmit transmission true, ⟨?_, transmits_transmission⟩, ⟨hphase, rfl⟩,
      fun _ => trivial⟩
    rw [hholds.slot_eq]
    exact hstate
  | sent r last hholds hstate hphase =>
    exact ⟨.acknowledge quietEnv (x.arrival 0), ⟨last, hphase⟩, trivial, fun _ => trivial⟩
  | asking r number hholds hstate hphase hnumber hblock hlt hopen hbuffer hcount hout =>
    apply hrequest hphase
    have hle : w.client.number * x.blockSize ≤ x.output.length := by
      rw [← hcount, ← hout]
      simp only [List.length_append]
      omega
    exact Nat.lt_of_mul_lt_mul_right (hle.trans_lt hsize)
  | done hphase => exact absurd hphase hnotDone

end

/-! ## Whole exchanges -/

section
variable (x : CgiExchange)

/-- The client has a part of the output, and all of it at the end. Until then something can bring
the exchange forward. -/
structure Delivers (w : World) : Prop where
  part : w.client.content <+: x.output
  whole : w.client.phase = .done → w.client.content = x.output
  enabled : w.client.phase ≠ .done → x.output.length < 2 ^ 20 * x.blockSize →
    ∃ op, x.Legal op w ∧ x.Useful op w ∧ (x.Drained w → x.Expected op w)

/-- Before the first request. -/
def start (node : CgiNode) : World where
  node := node
  unread := x.output

variable {x} {w : World}

/-- In every stage the client has a front of the output. -/
theorem Stage.delivers (h : x.Stage w) : x.Delivers w := by
  -- the bytes that the client has, what it has when it is done, and the next step before that
  refine ⟨?_, ?_, fun hnotDone hsize => h.enabled hnotDone hsize⟩
  · cases h with
    | idle hidle hclient hout =>
      rw [hclient]
      exact List.nil_prefix
    | reading r hholds hstate hphase hblock hlt hopen hbuffer hcount hout =>
      rw [← hout, List.append_assoc]
      exact List.prefix_append _ _
    | sending r hholds hstate hphase hblock hlt hoffers hcount hout =>
      rw [← hout, List.append_assoc]
      exact List.prefix_append _ _
    | sent r last hholds hstate hphase hblock hlt hoffers hlast hcount hout =>
      rw [← hout, List.append_assoc]
      exact List.prefix_append _ _
    | asking r number hholds hstate hphase hnumber hblock hlt hopen hbuffer hcount hout =>
      rw [← hout, List.append_assoc]
      exact List.prefix_append _ _
    | done hphase hout => rw [hout]
  · intro hdone
    cases h with
    | idle hidle hclient =>
      rw [hclient] at hdone
      cases hdone
    | reading r hholds hstate hphase => exact absurd (hdone.symm.trans hphase) (by decide)
    | sending r hholds hstate hphase => exact absurd (hdone.symm.trans hphase) (by decide)
    | sent r last hholds hstate hphase => exact absurd (hdone.symm.trans hphase) (by simp)
    | asking r number hholds hstate hphase => exact absurd (hdone.symm.trans hphase) (by decide)
    | done hphase hout => exact hout

/-- No step loses or repeats a part of the output. -/
theorem Stage.run (h : x.Stage w) {ops : List Op}
    (hops : AllSteps x.exec (fun op w => x.Legal op w ∧ x.Expected op w) w ops) :
    AllStates x.exec x.Delivers w ops ∧
      AllSteps x.exec
        (fun op w => x.cost (x.exec op w) ≤ x.cost w ∧
          (x.Useful op w → x.cost (x.exec op w) < x.cost w)) w ops := by
  induction ops generalizing w with
  | nil => exact ⟨h.delivers, trivial⟩
  | cons op ops ih =>
    obtain ⟨⟨hlegal, hexpected⟩, hrest⟩ := hops
    have hstep := h.advances op hlegal hexpected
    obtain ⟨hstates, hsteps⟩ := ih hstep.stage hrest
    exact ⟨⟨h.delivers, hstates⟩, ⟨hstep.cost_le, hstep.cost_lt⟩, hsteps⟩

/-- A client that finds at most two blocks in the buffer whenever it asks for the next one gets the
output of the command: always a part of it, all of it in the end, and the end can be reached. -/
theorem cgiNode_delivers (x : CgiExchange) {node : CgiNode} (hidle : x.Idle node) {ops : List Op}
    (hops : AllSteps x.exec (fun op w => x.Legal op w ∧ x.Expected op w) (x.start node) ops) :
    AllStates x.exec x.Delivers (x.start node) ops ∧
      AllSteps x.exec
        (fun op w => x.cost (x.exec op w) ≤ x.cost w ∧
          (x.Useful op w → x.cost (x.exec op w) < x.cost w)) (x.start node) ops :=
  Stage.run (.idle hidle rfl rfl) hops

theorem cgiNodeMaxRequests_pos : 0 < cgiNodeMaxRequests := by
  decide

/-- An output of `n` bytes in blocks of 16 bytes. -/
def bytesExchange (n : ℕ) : CgiExchange where
  slot := ⟨0, cgiNodeMaxRequests_pos⟩
  addr := { (default : SockAddr) with family := 10 }
  token := [7]
  szx := 0
  output := List.replicate n 65
  token_le := by decide
  szx_le := by decide
  family := by decide

theorem idle_bytesExchange (n : ℕ) : (bytesExchange n).Idle {} :=
  ⟨⟨rfl, fun _ _ howns => howns.state rfl⟩, fun howns => howns.state rfl, rfl, rfl⟩

/-- The request for a block. -/
def askOp (number : ℕ) : Op :=
  .request quietEnv 0 ⟨1, 0, 0⟩ ((bytesExchange 0).arrival number)

/-- A read of up to `n` bytes. -/
def readOp (n : ℕ) : Op :=
  .process quietEnv 0 ⟨false, false, true, false, none, none⟩ n transmission

/-- Two blocks and eight bytes: two blocks are read at once. -/
def cutOffRun : List Op :=
  [askOp 0, readOp 32, .transmit transmission true, .acknowledge quietEnv transmission, askOp 1]

/-- A block and one byte. -/
def wholeRun : List Op :=
  [askOp 0, readOp 32, .transmit transmission true, .acknowledge quietEnv transmission, askOp 1,
    readOp 32, .transmit transmission true, .acknowledge quietEnv transmission]

/-- The client may ask for its next block. -/
theorem legal_askOp {n number : ℕ} {w : World} (hphase : w.client.phase = .ready)
    (hnumber : w.client.number = number) (hlt : number < 2 ^ 20) :
    (bytesExchange n).Legal (askOp number) w := by
  refine ⟨hphase, ?_, by decide⟩
  rw [hnumber]
  exact (bytesExchange n).asks_arrival hlt

/-- The pipe may give up to 32 bytes. -/
theorem legal_readOp {m n : ℕ} {w : World} (hpos : 0 < n) (hle : n ≤ 32) :
    (bytesExchange m).Legal (readOp n) w := ⟨rfl, rfl, rfl, hpos, hle⟩

theorem expected_readOp {m n : ℕ} {w : World}
    (h : 0 ≤ (w.node.requests (bytesExchange m).slot).expiration) :
    (bytesExchange m).Expected (readOp n) w := h

/-- Seventeen bytes, in two blocks. -/
theorem cgiNode_delivers_seventeen :
    AllStates (bytesExchange 17).exec (bytesExchange 17).Delivers ((bytesExchange 17).start {})
        wholeRun ∧
      (wholeRun.foldl (fun w op => (bytesExchange 17).exec op w)
        ((bytesExchange 17).start {})).client.phase = .done := by
  refine ⟨(cgiNode_delivers (bytesExchange 17) (idle_bytesExchange 17) ?_).1, by decide +kernel⟩
  refine ⟨⟨legal_askOp rfl rfl (by decide), ?_, fun hne => absurd rfl hne⟩,
    ⟨legal_readOp (by decide) (by decide), expected_readOp ?_⟩,
    ⟨⟨?_, transmits_transmission⟩, trivial⟩, ⟨⟨false, ?_⟩, trivial⟩,
    ⟨legal_askOp ?_ ?_ (by decide), ?_, fun _ => .inl ?_⟩,
    ⟨legal_readOp (by decide) (by decide), expected_readOp ?_⟩,
    ⟨⟨?_, transmits_transmission⟩, trivial⟩, ⟨⟨true, ?_⟩, trivial⟩, trivial⟩
  all_goals decide +kernel

/-- A client that asks for the second block when two blocks are in the buffer, and more is to come,
takes it for the last one. -/
theorem cgiNode_cutsOff : ¬∀ (x : CgiExchange) (node : CgiNode), x.Idle node →
    ∀ ops, AllSteps x.exec x.Legal (x.start node) ops →
      AllStates x.exec (fun w => w.client.phase = .done → w.client.content = x.output)
        (x.start node) ops := by
  intro h
  have hlegal : AllSteps (bytesExchange 40).exec (bytesExchange 40).Legal
      ((bytesExchange 40).start {}) cutOffRun := by
    refine ⟨legal_askOp rfl rfl (by decide), legal_readOp (by decide) (by decide),
      ⟨?_, transmits_transmission⟩, ⟨false, ?_⟩, legal_askOp ?_ ?_ (by decide), trivial⟩
    all_goals decide +kernel
  obtain ⟨-, -, -, -, -, hlast⟩ := h (bytesExchange 40) {} (idle_bytesExchange 40) cutOffRun hlegal
  revert hlast
  show ¬(_ = _ → _ = _)
  decide +kernel

end

end CgiExchange

end Smcp
