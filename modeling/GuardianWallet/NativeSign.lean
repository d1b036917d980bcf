import GuardianWallet.SignProperties

/-!
# The native signer: `run_interactive_sign` and `run_sign_loop`

`native-gen` signs in one process per party.  `run_interactive_sign` reads an init line
(`SignInit`), builds the same CGGMP24 signing machine as `create_session`, and hands it to
`run_sign_loop`, which writes the first messages, then reads one batch of envelopes per
line, delivers each envelope and drives the machine after it, and writes one `SignOutput`
line per batch, until the machine outputs its signature.

**Model.**  Standard input is the list of its lines; a read past the end gives the empty
line, as `read_line` does.  The lines written are the `SignOutput` records, and an
`expect` is a panic and `process::exit(1)` an `Err`, both ending the process.  The loops run
with fuel; the machine's calls are logged as in `Sign`.
-/

namespace GuardianWallet
namespace Sign

open RoundBased

/-- `SignInit`: the init line of `run_interactive_sign`. -/
structure SignInit where
  coreShare : String
  auxInfo : String
  messageHash : String
  partyIndex : UInt16
  partiesAtKeygen : List UInt16
  eid : String
deriving DecidableEq, Repr

/-- `SignOutput`: one line written by `run_sign_loop`; `r` and `s` in hex. -/
structure SignOutput where
  messages : List WasmSignMessage
  complete : Bool
  r : Option String
  s : Option String
deriving DecidableEq, Repr

/-- What the native signer uses beyond `Codec` and `KeyLib`: `serde_json` on its lines, and
`hex`. -/
structure NativeLib where
  /-- `serde_json::from_str` into a `SignInit`. -/
  parseInit : String → Except String SignInit
  /-- `serde_json::from_str` into a batch of envelopes. -/
  parseBatch : String → Except String (List WasmSignMessage)
  /-- `hex::decode`. -/
  hexDecode : String → Except String (List UInt8)
  /-- `hex::encode`. -/
  hexEncode : List UInt8 → String

/-- The line `run_sign_loop` writes for a batch's envelopes and the signature, if any. -/
def SignOutput.of (messages : List WasmSignMessage) (sig : Option (String × String)) : SignOutput :=
  ⟨messages, sig.isSome, sig.map (·.1), sig.map (·.2)⟩

section Native

variable {σ Msg Sig : Type} (c : Codec Msg Sig) (sm : StateMachine σ Msg (Except String Sig))
  (nat : NativeLib)

/-- `drive_batch` of `run_sign_loop`: `proceed` until the machine asks for a message or
outputs; the envelopes, with a destination position written as it is, and the hex `r` and
`s` of the signature. -/
def nativeDriveBatch (partyIndex : UInt16) : Nat → SmWrapper σ Msg (Except String Sig) →
    Except Fault (List WasmSignMessage × Option (String × String)) ×
      SmWrapper σ Msg (Except String Sig)
  | 0, w => (.error .outOfFuel, w)
  | fuel + 1, w =>
      let (r, st) := sm.proceed w.sm
      let w : SmWrapper σ Msg (Except String Sig) := ⟨st, w.calls ++ [.proceed r]⟩
      match r with
      | .sendMsg outgoing =>
          match c.toJson outgoing.msg with
          | .error _ => (.error (.panic "serialize outgoing protocol message"), w)
          | .ok jsonBytes =>
              let (isBroadcast, recipient) : Bool × Option UInt16 :=
                match outgoing.recipient with
                | .allParties => (true, none)
                | .oneParty p => (false, some p)
              let msg : WasmSignMessage := ⟨partyIndex, isBroadcast, recipient, c.b64Encode jsonBytes⟩
              let (rest, w) := nativeDriveBatch partyIndex fuel w
              (rest.map fun (ms, sig) => (msg :: ms, sig), w)
      | .needsOneMoreMessage => (.ok ([], none), w)
      | .output (.error _) => (.error (.panic "signing protocol produced an error"), w)
      | .output (.ok sig) =>
          let sigBytes := c.sigBytes sig
          (.ok ([], some (nat.hexEncode (sigBytes.take 32), nat.hexEncode (sigBytes.drop 32))), w)
      | .yielded => nativeDriveBatch partyIndex fuel w
      | .error e => (.error (.err s!"[native-sign] protocol error: {e}"), w)

/-- The body of the loop of `run_sign_loop` over a batch: decode the envelope, hand it to
`received_msg` with its sender as written, drive. -/
def nativeDeliver (fuel : Nat) (partyIndex : UInt16) (w : SmWrapper σ Msg (Except String Sig))
    (msg : WasmSignMessage) :
    Except Fault (List WasmSignMessage × Option (String × String)) ×
      SmWrapper σ Msg (Except String Sig) :=
  match c.b64Decode msg.payload with
  | .error _ => (.error (.panic "base64 decode incoming message payload"), w)
  | .ok payloadBytes =>
      match c.fromJson payloadBytes with
      | .error _ => (.error (.panic "deserialize incoming protocol message"), w)
      | .ok protocolMsg =>
          let incoming : Incoming Msg :=
            ⟨0, msg.sender, if msg.isBroadcast then .broadcast else .p2p, protocolMsg⟩
          let (r, st) := sm.receivedMsg w.sm incoming
          let w : SmWrapper σ Msg (Except String Sig) :=
            ⟨st, w.calls ++ [.receivedMsg incoming r.isOk]⟩
          match r with
          | .error _ =>
              let sender := msg.sender
              let isBroadcast := msg.isBroadcast
              (.error (.err
                s!"[native-sign] failed to deliver msg from party {sender} (broadcast={isBroadcast})"),
                w)
          | .ok () => nativeDriveBatch c sm nat partyIndex fuel w

/-- The loop of `run_sign_loop` over one batch; it stops at the signature. -/
def nativeRound (fuel : Nat) (partyIndex : UInt16) : List WasmSignMessage →
    SmWrapper σ Msg (Except String Sig) →
    Except Fault (List WasmSignMessage × Option (String × String)) ×
      SmWrapper σ Msg (Except String Sig)
  | [], w => (.ok ([], none), w)
  | msg :: rest, w =>
      let (r, w) := nativeDeliver c sm nat fuel partyIndex w msg
      match r with
      | .error f => (.error f, w)
      | .ok (out, some sig) => (.ok (out, some sig), w)
      | .ok (out, none) =>
          let (r, w) := nativeRound fuel partyIndex rest w
          (r.map fun (out', sig) => (out ++ out', sig), w)

/-- Phase 2 of `run_sign_loop`: one line per round, until the signature; `rounds` bounds the
rounds. -/
def signRounds (fuel : Nat) (partyIndex : UInt16) : Nat → List String →
    SmWrapper σ Msg (Except String Sig) →
    Except Fault Unit × List SignOutput × SmWrapper σ Msg (Except String Sig)
  | 0, _, w => (.error .outOfFuel, [], w)
  | rounds + 1, lines, w =>
      match nat.parseBatch (lines.headD "").trim with
      | .error _ => (.error (.panic "parse incoming messages JSON"), [], w)
      | .ok incoming =>
          let (r, w) := nativeRound c sm nat fuel partyIndex incoming w
          match r with
          | .error f => (.error f, [], w)
          | .ok (out, sig) =>
              let output := SignOutput.of out sig
              if sig.isSome then (.ok (), [output], w)
              else
                let (r, outs, w) := signRounds fuel partyIndex rounds lines.tail w
                (r, output :: outs, w)

/-- `run_sign_loop`: the first drive and its line, then the rounds. -/
def runSignLoop (fuel : Nat) (w : SmWrapper σ Msg (Except String Sig)) (partyIndex : UInt16)
    (lines : List String) :
    Except Fault Unit × List SignOutput × SmWrapper σ Msg (Except String Sig) :=
  let (r, w) := nativeDriveBatch c sm nat partyIndex fuel w
  match r with
  | .error f => (.error f, [], w)
  | .ok (messages, sig) =>
      let output := SignOutput.of messages sig
      if sig.isSome then (.ok (), [output], w)
      else
        let (r, outs, w) := signRounds c sm nat fuel partyIndex fuel lines w
        (r, output :: outs, w)

variable {Core Aux Key : Type} (lib : KeyLib Core Aux Key σ)

/-- `run_interactive_sign` on the lines of standard input: how the process ends, the lines
it wrote, and the calls made on the machine. -/
def runInteractiveSign (fuel : Nat) (stdin : List String) :
    Except Fault Unit × List SignOutput × List (Call Msg (Except String Sig)) :=
  let fail (msg : String) : Except Fault Unit × List SignOutput × List (Call Msg (Except String Sig)) :=
    (.error (.panic msg), [], [])
  match nat.parseInit (stdin.headD "").trim with
  | .error _ => fail "failed to parse sign init JSON"
  | .ok init =>
  match c.b64Decode init.coreShare with
  | .error _ => fail "decode core_share base64"
  | .ok coreBytes =>
  match c.b64Decode init.auxInfo with
  | .error _ => fail "decode aux_info base64"
  | .ok auxBytes =>
  match nat.hexDecode init.messageHash with
  | .error _ => fail "decode message_hash hex"
  | .ok hashBytes =>
  match nat.hexDecode init.eid with
  | .error _ => fail "decode eid hex"
  | .ok eidBytes =>
  if hashBytes.length ≠ 32 then
    let len := hashBytes.length
    (.error (.err s!"message_hash must be 32 bytes, got {len}"), [], [])
  else
  match lib.coreShare coreBytes with
  | .error _ => fail "deserialize CoreKeyShare"
  | .ok coreShare =>
  match lib.auxInfo auxBytes with
  | .error _ => fail "deserialize AuxInfo"
  | .ok auxInfo =>
  match lib.fromParts coreShare auxInfo with
  | .error _ => fail "combine key share from parts"
  | .ok keyShare =>
  match init.partiesAtKeygen.findIdx? (· == init.partyIndex) with
  | none =>
      let partyIndex := init.partyIndex
      let parties := init.partiesAtKeygen
      fail s!"party_index {partyIndex} not found in parties {parties}"
  | some partyPosition =>
      let st := lib.signing eidBytes partyPosition.toUInt16 init.partiesAtKeygen keyShare hashBytes
      let (r, outs, w) := runSignLoop c sm nat fuel ⟨st, []⟩ init.partyIndex stdin.tail
      (r, outs, w.calls)

end Native

/-- A machine that sends one message to position 0, asks for one message, then outputs. -/
def sendThenWait : StateMachine Nat Unit (Except String Unit) where
  proceed
    | 0 => (.sendMsg ⟨.oneParty 0, ()⟩, 1)
    | 1 => (.needsOneMoreMessage, 1)
    | n => (.output (.ok ()), n)
  receivedMsg _ _ := (.ok (), 2)

/-- Key material that always loads, and makes `sendThenWait` in its first state. -/
def natLib : KeyLib Unit Unit Unit Nat where
  coreShare _ := .ok ()
  auxInfo _ := .ok ()
  fromParts _ _ := .ok ()
  signing _ _ _ _ _ := 0

/-- Standard input of party 2 of the group `[1, 2]`: any init line parses to its init
record, any batch line to one broadcast from keygen index 2's partner, index 1. -/
def groupLines : NativeLib where
  parseInit _ := .ok ⟨"", "", "", 2, [1, 2], ""⟩
  parseBatch _ := .ok [⟨1, true, none, ""⟩]
  hexDecode _ := .ok (List.replicate 32 0)
  hexEncode _ := ""

/-- **The native signer is not the WASM one.**  Party 2 of the group `[1, 2]`, whose
machine sends to position 0 and then waits for one broadcast from party 1: the native
signer writes the message with recipient 0, which is not in the group, and hands the
machine the broadcast with sender 1, a keygen index; `create_session` and `process_round`
write recipient 1 and hand it sender 0, the position of party 1. -/
theorem native_sign_diverges :
    runInteractiveSign unitCodec sendThenWait groupLines natLib 4 ["", ""] =
      (.ok (), [⟨[⟨2, false, some 0, ""⟩], false, none, none⟩, ⟨[], true, some "", some ""⟩],
        [.proceed (.sendMsg ⟨.oneParty 0, ()⟩), .proceed .needsOneMoreMessage,
          .receivedMsg ⟨0, 1, .broadcast, ()⟩ true, .proceed (.output (.ok ()))]) ∧
    (createSession unitCodec sendThenWait natLib 4 (fun _ => none) [] [] (List.replicate 32 0) 2
        [1, 2] [] "s").1 = .ok ⟨"s", [⟨2, false, some 1, ""⟩]⟩ ∧
    ∃ s, (processRound unitCodec sendThenWait 4
        (createSession unitCodec sendThenWait natLib 4 (fun _ => none) [] [] (List.replicate 32 0)
          2 [1, 2] [] "s").2 "s" [⟨1, true, none, ""⟩]).2 "s" = some s ∧
      s.sm.calls = [.proceed (.sendMsg ⟨.oneParty 0, ()⟩), .proceed .needsOneMoreMessage,
        .receivedMsg ⟨0, 0, .broadcast, ()⟩ true, .proceed (.output (.ok ()))] :=
  ⟨rfl, rfl, _, rfl, rfl⟩

end Sign
end GuardianWallet
