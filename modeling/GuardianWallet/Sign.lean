import GuardianWallet.Basic

/-!
# `sign.rs`: interactive signing sessions

Each party of a signing ceremony holds one `SignSession`: the CGGMP24 signing machine
behind `SmWrapper`, its own keygen index `party_index`, and the keygen indices
`parties_at_keygen` of the signing group.  The machine numbers parties by their position in
that group; the wire names them by keygen index.

**Sending.**  `drive_batch` calls `proceed` until the machine asks for a message or outputs a
signature; every `SendMsg` becomes an `MpcMessage` from `party_index` with the message
serialized (`serde_json`, then `base64`), and `mpc_msg_to_wasm` turns a point-to-point
destination, a position `p`, into the keygen index `parties_at_keygen[p]`.

**Receiving.**  `process_round` walks a batch of envelopes in order.  It skips a
point-to-point envelope addressed to another keygen index; for any other it looks up the
position of the sender, decodes the payload, hands the machine one `Incoming`, and drives it
with `drive_batch`.  When it delivered nothing it drives once anyway.

**Store.**  `SESSIONS` maps session ids to sessions; `create_session` inserts one under a
fresh id, `process_round` works on the session it names in place, `destroy_session` removes
it.  The id, a random UUID, is an input of the model.

**Libraries.**  `serde_json`, `base64`, the signature encoding (`Codec`) and the key
material and machine constructor of `cggmp24` (`KeyLib`) are parameters; the machine is a
`StateMachine` whose output is the signing result.  `SmWrapper` keeps, besides the machine's
state, the calls made on it (a ghost log, not in the source).  A loop of the source runs
with fuel.
-/

namespace GuardianWallet
namespace Sign

open RoundBased

/-- `MpcRecipient` of `types.rs`: a broadcast marker or one party. -/
inductive MpcRecipient
  | broadcast (s : String)
  | party (p : UInt16)
deriving DecidableEq, Repr

/-- `MpcMessage` of `types.rs`: a message as `drive_one` emits it. -/
structure MpcMessage where
  sender : UInt16
  recipient : MpcRecipient
  payload : String
deriving DecidableEq, Repr

/-- `SignatureResult` of `types.rs`: the bytes of `r` and of `s`. -/
structure SignatureResult where
  r : List UInt8
  s : List UInt8
deriving DecidableEq, Repr

/-- `DriveOneResult`: what one call of `proceed` gave. -/
inductive DriveOneResult
  | sendMsg (m : MpcMessage)
  | needsInput
  | finished (sig : SignatureResult)
  | yielded
deriving DecidableEq, Repr

/-- `WasmSignMessage`: an envelope on the signing wire. -/
structure WasmSignMessage where
  sender : UInt16
  isBroadcast : Bool
  recipient : Option UInt16
  payload : String
deriving DecidableEq, Repr

/-- `CreateSessionResult`. -/
structure CreateSessionResult where
  sessionId : String
  messages : List WasmSignMessage
deriving DecidableEq, Repr

/-- `ProcessRoundResult`. -/
structure ProcessRoundResult where
  messages : List WasmSignMessage
  complete : Bool
  signature : Option SignatureResult
deriving DecidableEq, Repr

/-- What `sign.rs` uses of `serde_json`, `base64` and the signature type. -/
structure Codec (Msg Sig : Type) where
  /-- `serde_json::to_vec` of a protocol message. -/
  toJson : Msg → Except String (List UInt8)
  /-- `serde_json::from_slice` into a protocol message. -/
  fromJson : List UInt8 → Except String Msg
  /-- `base64` `STANDARD.encode`. -/
  b64Encode : List UInt8 → String
  /-- `base64` `STANDARD.decode` of a payload. -/
  b64Decode : String → Except String (List UInt8)
  /-- `normalize_s` then `write_to_slice`: the bytes `r ‖ s` of a signature. -/
  sigBytes : Sig → List UInt8

/-- What `create_session` uses of `serde_json` and `cggmp24`. -/
structure KeyLib (Core Aux Key σ : Type) where
  /-- `serde_json::from_slice` into an `IncompleteKeyShare`. -/
  coreShare : List UInt8 → Except String Core
  /-- `serde_json::from_slice` into an `AuxInfo`. -/
  auxInfo : List UInt8 → Except String Aux
  /-- `KeyShare::from_parts`. -/
  fromParts : Core → Aux → Except String Key
  /-- `signing(eid, i, parties, key_share)` … `sign_sync(rng, prehashed)` on the message hash:
  the signing machine's initial state. -/
  signing : List UInt8 → UInt16 → List UInt16 → Key → List UInt8 → σ

/-- `SmWrapper`: the machine's state, and the calls made on it so far (a ghost log). -/
structure SmWrapper (σ Msg Out : Type) where
  sm : σ
  calls : List (Call Msg Out)

/-- `SignSession`, without the pointers it frees on `Drop`. -/
structure SignSession (σ Msg Sig : Type) where
  sm : SmWrapper σ Msg (Except String Sig)
  partyIndex : UInt16
  partiesAtKeygen : List UInt16
  signature : Option SignatureResult

/-- `SESSIONS`: the thread-local map from session id to session. -/
abbrev Sessions (σ Msg Sig : Type) := String → Option (SignSession σ Msg Sig)

section Wrapper

variable {σ Msg Sig : Type} (c : Codec Msg Sig) (sm : StateMachine σ Msg (Except String Sig))

/-- What `drive_one` returns for the result of `proceed`. -/
def driveOneResult (partyIndex : UInt16) : ProceedResult (Except String Sig) Msg →
    Except String DriveOneResult
  | .sendMsg outgoing =>
      match c.toJson outgoing.msg with
      | .error e => .error s!"serialize outgoing msg: {e}"
      | .ok jsonBytes =>
          let recipient := match outgoing.recipient with
            | .allParties => MpcRecipient.broadcast "all"
            | .oneParty p => .party p
          .ok (.sendMsg ⟨partyIndex, recipient, c.b64Encode jsonBytes⟩)
  | .needsOneMoreMessage => .ok .needsInput
  | .output (.error e) => .error s!"signing protocol error: {e}"
  | .output (.ok sig) =>
      let sigBytes := c.sigBytes sig
      .ok (.finished ⟨sigBytes.take 32, sigBytes.drop 32⟩)
  | .yielded => .ok .yielded
  | .error e => .error s!"protocol error: {e}"

/-- `SmWrapper::drive_one`: one call of `proceed`. -/
def SmWrapper.driveOne (w : SmWrapper σ Msg (Except String Sig)) (partyIndex : UInt16) :
    Except String DriveOneResult × SmWrapper σ Msg (Except String Sig) :=
  let (r, st) := sm.proceed w.sm
  (driveOneResult c partyIndex r, ⟨st, w.calls ++ [.proceed r]⟩)

/-- The `Incoming` that `receive_msg` builds from a payload: id 0, kind 0 for a broadcast. -/
def decodeIncoming (sender : UInt16) (msgType : UInt8) (payload : String) :
    Except String (Incoming Msg) :=
  match c.b64Decode payload with
  | .error e => .error s!"base64 decode incoming msg: {e}"
  | .ok jsonBytes =>
      match c.fromJson jsonBytes with
      | .error e => .error s!"deserialize incoming msg: {e}"
      | .ok msg => .ok ⟨0, sender, if msgType = 0 then .broadcast else .p2p, msg⟩

/-- `SmWrapper::receive_msg`: decode a payload and hand it to `received_msg`. -/
def SmWrapper.receiveMsg (w : SmWrapper σ Msg (Except String Sig)) (sender : UInt16)
    (msgType : UInt8) (payload : String) : Except String Unit × SmWrapper σ Msg (Except String Sig) :=
  match decodeIncoming c sender msgType payload with
  | .error e => (.error e, w)
  | .ok incoming =>
      let (r, st) := sm.receivedMsg w.sm incoming
      (r.mapError fun _ => "failed to deliver message to state machine",
        ⟨st, w.calls ++ [.receivedMsg incoming r.isOk]⟩)

@[simp] theorem SmWrapper.driveOne_fst (w : SmWrapper σ Msg (Except String Sig)) (i : UInt16) :
    (w.driveOne c sm i).1 = driveOneResult c i (sm.proceed w.sm).1 := rfl

@[simp] theorem SmWrapper.driveOne_snd (w : SmWrapper σ Msg (Except String Sig)) (i : UInt16) :
    (w.driveOne c sm i).2 = ⟨(sm.proceed w.sm).2, w.calls ++ [.proceed (sm.proceed w.sm).1]⟩ := rfl

end Wrapper

/-- `mpc_msg_to_wasm`: a destination position `p` becomes `parties[p]`, or `p` itself when
`p` is out of range. -/
def mpcMsgToWasm (msg : MpcMessage) (parties : List UInt16) : WasmSignMessage :=
  let (isBroadcast, recipient) : Bool × Option UInt16 :=
    match msg.recipient with
    | .broadcast _ => (true, none)
    | .party p => (false, some (parties[p.toNat]?.getD p))
  ⟨msg.sender, isBroadcast, recipient, msg.payload⟩

/-- `process_round` skips a point-to-point envelope whose recipient is set to another party. -/
def skips (partyIndex : UInt16) (msg : WasmSignMessage) : Bool :=
  !msg.isBroadcast && match msg.recipient with
    | some recipient => recipient != partyIndex
    | none => false

section Session

variable {σ Msg Sig : Type} (c : Codec Msg Sig) (sm : StateMachine σ Msg (Except String Sig))

/-- `drive_batch`: `proceed` until the machine asks for a message or outputs a signature;
the envelopes of the messages it sent, in order. -/
def driveBatch : Nat → SignSession σ Msg Sig →
    Except Fault (List WasmSignMessage) × SignSession σ Msg Sig
  | 0, s => (.error .outOfFuel, s)
  | fuel + 1, s =>
      let (r, w) := s.sm.driveOne c sm s.partyIndex
      let s := { s with sm := w }
      match r with
      | .error e => (.error (.err e), s)
      | .ok (.sendMsg mpcMsg) =>
          let wasmMsg := mpcMsgToWasm mpcMsg s.partiesAtKeygen
          let (rest, s) := driveBatch fuel s
          (rest.map (wasmMsg :: ·), s)
      | .ok .needsInput => (.ok [], s)
      | .ok (.finished sig) => (.ok [], { s with signature := some sig })
      | .ok .yielded => driveBatch fuel s

/-- The body of the loop of `process_round` for an envelope it does not skip: find the
sender's position, hand the machine the message, drive it. -/
def deliverOne (fuel : Nat) (s : SignSession σ Msg Sig) (msg : WasmSignMessage) :
    Except Fault (List WasmSignMessage) × SignSession σ Msg Sig :=
  match s.partiesAtKeygen.findIdx? (· == msg.sender) with
  | none =>
      let sender := msg.sender
      let parties := s.partiesAtKeygen
      (.error (.err s!"unknown sender {sender} not in parties {parties}"), s)
  | some senderPos =>
      let (r, w) := s.sm.receiveMsg c sm senderPos.toUInt16 (if msg.isBroadcast then 0 else 1)
        msg.payload
      match r with
      | .error e => (.error (.err e), { s with sm := w })
      | .ok () => driveBatch c sm fuel { s with sm := w }

/-- The loop of `process_round` over a batch: the envelopes sent, and the `u32` count of
envelopes delivered. -/
def processRoundLoop (fuel : Nat) : List WasmSignMessage → SignSession σ Msg Sig → UInt32 →
    Except Fault (List WasmSignMessage × UInt32) × SignSession σ Msg Sig
  | [], s, delivered => (.ok ([], delivered), s)
  | msg :: rest, s, delivered =>
      if skips s.partyIndex msg then processRoundLoop fuel rest s delivered
      else
        let (r, s) := deliverOne c sm fuel s msg
        match r with
        | .error f => (.error f, s)
        | .ok batch =>
            let (r, s) := processRoundLoop fuel rest s (delivered + 1)
            (r.map fun (out, d) => (batch ++ out, d), s)

/-- `process_round` on the session it found. -/
def SignSession.processRound (s : SignSession σ Msg Sig) (fuel : Nat)
    (incoming : List WasmSignMessage) : Except Fault ProcessRoundResult × SignSession σ Msg Sig :=
  let (r, s) := processRoundLoop c sm fuel incoming s 0
  match r with
  | .error f => (.error f, s)
  | .ok (allOutgoing, delivered) =>
      if delivered = 0 then
        let (batch, s) := driveBatch c sm fuel s
        match batch with
        | .error f => (.error f, s)
        | .ok batch => (.ok ⟨allOutgoing ++ batch, s.signature.isSome, s.signature⟩, s)
      else (.ok ⟨allOutgoing, s.signature.isSome, s.signature⟩, s)

/-- `process_round`: find the session, run the round on it, keep what the round left. -/
def processRound (fuel : Nat) (sessions : Sessions σ Msg Sig) (sessionId : String)
    (incoming : List WasmSignMessage) : Except Fault ProcessRoundResult × Sessions σ Msg Sig :=
  match sessions sessionId with
  | none => (.error (.err s!"no sign session found: {sessionId}"), sessions)
  | some s =>
      let (r, s) := s.processRound c sm fuel incoming
      (r, Function.update sessions sessionId (some s))

/-- `destroy_session`: whether the id was present; the map without it. -/
def destroySession (sessions : Sessions σ Msg Sig) (sessionId : String) :
    Bool × Sessions σ Msg Sig :=
  ((sessions sessionId).isSome, Function.update sessions sessionId none)

variable {Core Aux Key : Type} (lib : KeyLib Core Aux Key σ)

/-- `create_session`, with `sessionId` the UUID it generates. -/
def createSession (fuel : Nat) (sessions : Sessions σ Msg Sig)
    (coreShareBytes auxInfoBytes messageHash : List UInt8) (partyIndex : UInt16)
    (partiesAtKeygen : List UInt16) (eidBytes : List UInt8) (sessionId : String) :
    Except Fault CreateSessionResult × Sessions σ Msg Sig :=
  match lib.coreShare coreShareBytes with
  | .error e => (.error (.err s!"deserialize CoreKeyShare: {e}"), sessions)
  | .ok coreShare =>
  match lib.auxInfo auxInfoBytes with
  | .error e => (.error (.err s!"deserialize AuxInfo: {e}"), sessions)
  | .ok auxInfo =>
  match lib.fromParts coreShare auxInfo with
  | .error e => (.error (.err s!"combine key share: {e}"), sessions)
  | .ok keyShare =>
  if messageHash.length ≠ 32 then
    let len := messageHash.length
    (.error (.err s!"message_hash must be 32 bytes, got {len}"), sessions)
  else
  match partiesAtKeygen.findIdx? (· == partyIndex) with
  | none =>
      (.error (.err s!"party_index {partyIndex} not found in parties {partiesAtKeygen}"), sessions)
  | some partyPosition =>
      let st := lib.signing eidBytes partyPosition.toUInt16 partiesAtKeygen keyShare messageHash
      let session : SignSession σ Msg Sig := ⟨⟨st, []⟩, partyIndex, partiesAtKeygen, none⟩
      let (r, session) := driveBatch c sm fuel session
      match r with
      | .error f => (.error f, sessions)
      | .ok messages =>
          (.ok ⟨sessionId, messages⟩, Function.update sessions sessionId (some session))

end Session

end Sign
end GuardianWallet
