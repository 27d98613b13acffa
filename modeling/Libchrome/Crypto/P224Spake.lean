import Libchrome.Crypto.P224.Negation
import Libchrome.Library.Bytes

/-!
# Password-authenticated key exchange (`p224_spake.cc`)

The points are elements of a group, which the limbs of `p224.cc` represent, and they have strings.
-/

namespace Libchrome.Crypto
open Library Bytes

/-- The operations on points, and `SHA256HashString`. -/
structure Primitives (G : Type) where
  kBasePoint : G
  kM : G
  kN : G
  negate : G → G
  toString : G → List Byte
  setFromString : List Byte → Option G
  sha256HashString : List Byte → List Byte

/-- The strings of points are canonical, but infinity has none that is read, and is not negated. -/
structure Primitives.Lawful {G : Type} [AddCommGroup G] (p224 : Primitives G) : Prop where
  negate : ∀ point ≠ 0, p224.negate point = -point
  rendered : ∀ point, (p224.toString point).length = 56
  reads : ∀ point ≠ 0, p224.setFromString (p224.toString point) = some point
  read : ∀ string point, p224.setFromString string = some point → string.length = 56
  digest : ∀ bytes, (p224.sha256HashString bytes).length = 32

inductive PeerType where
  | kPeerTypeClient
  | kPeerTypeServer
deriving DecidableEq

namespace P224EncryptedKeyExchange

inductive State where
  | kStateInitial
  | kStateRecvDH
  | kStateSendHash
  | kStateRecvHash
  | kStateDone

inductive Result where
  | kResultPending
  | kResultFailed
  | kResultSuccess
deriving DecidableEq

end P224EncryptedKeyExchange

structure P224EncryptedKeyExchange where
  state_ : P224EncryptedKeyExchange.State
  is_server_ : Bool
  next_message_ : List Byte
  error_ : String
  x_ : List Byte
  pw_ : List Byte
  expected_authenticator_ : List Byte
  key_ : List Byte

namespace P224EncryptedKeyExchange
variable {G : Type} [AddCommGroup G] (p224 : Primitives G) (exchange : P224EncryptedKeyExchange)

/-- `ScalarMult`. -/
def scalarMult (point : G) (scalar : List Byte) : G := Jacobian.ofBits (scalar.flatMap P224.bitsOfByte) • point

/-- The masked Diffie-Hellman value of `Init`. -/
def masked (is_server_ : Bool) (x_ pw_ : List Byte) : G :=
  scalarMult p224.kBasePoint x_ + scalarMult (if is_server_ then p224.kN else p224.kM) pw_

def hashedPassword (password : List Byte) : List Byte := (p224.sha256HashString password).take 28

/-- The constructor, where `x_` is what `RandBytes` gives. -/
def new (peer_type : PeerType) (password x_ : List Byte) : P224EncryptedKeyExchange :=
  let is_server_ : Bool := peer_type = .kPeerTypeServer
  let pw_ := hashedPassword p224 password
  ⟨.kStateInitial, is_server_, p224.toString (masked p224 is_server_ x_ pw_), "", x_, pw_,
    List.replicate 32 0, []⟩

/-- `none` is `LOG(FATAL)`. -/
def getNextMessage : Option (P224EncryptedKeyExchange × List Byte) :=
  match exchange.state_ with
  | .kStateInitial => some ({ exchange with state_ := .kStateRecvDH }, exchange.next_message_)
  | .kStateSendHash => some ({ exchange with state_ := .kStateRecvHash }, exchange.next_message_)
  | _ => none

def hashContents (peer_type : PeerType) (client_masked_dh server_masked_dh k : List Byte) : List Byte :=
  let role := if peer_type = .kPeerTypeServer then "server" else "client"
  role.toList.map (fun char => BitVec.ofNat 8 char.toNat) ++ client_masked_dh ++ server_masked_dh ++ exchange.pw_ ++ k

def calculateHash (peer_type : PeerType) (client_masked_dh server_masked_dh k : List Byte) : List Byte :=
  p224.sha256HashString (exchange.hashContents peer_type client_masked_dh server_masked_dh k)

/-- `none` is `LOG(FATAL)`. -/
def processMessage (message : List Byte) : Option (P224EncryptedKeyExchange × Result) :=
  match exchange.state_ with
  | .kStateRecvHash =>
    if message.length ≠ 32 then
      some ({ exchange with error_ := "peer's hash had an incorrect size" }, .kResultFailed)
    else if message ≠ exchange.expected_authenticator_ then
      some ({ exchange with error_ := "peer's hash had incorrect value" }, .kResultFailed)
    else some ({ exchange with state_ := .kStateDone }, .kResultSuccess)
  | .kStateRecvDH =>
    match p224.setFromString message with
    | none =>
      some ({ exchange with error_ := "failed to parse peer's masked Diffie-Hellman value" }, .kResultFailed)
    | some Ystar =>
      let MNpw := scalarMult (if exchange.is_server_ then p224.kM else p224.kN) exchange.pw_
      let Y := Ystar + p224.negate MNpw
      let key_ := p224.toString (scalarMult Y exchange.x_)
      let client_masked_dh := if exchange.is_server_ then message else exchange.next_message_
      let server_masked_dh := if exchange.is_server_ then exchange.next_message_ else message
      let client_hash := calculateHash p224 exchange .kPeerTypeClient client_masked_dh server_masked_dh key_
      let server_hash := calculateHash p224 exchange .kPeerTypeServer client_masked_dh server_masked_dh key_
      some ({ exchange with
        key_
        next_message_ := if exchange.is_server_ then server_hash else client_hash
        expected_authenticator_ := if exchange.is_server_ then client_hash else server_hash
        state_ := .kStateSendHash }, .kResultPending)
  | _ => none

/-- Both parties send what they have and receive it, twice. -/
def converse (client server : P224EncryptedKeyExchange) :
    Option (P224EncryptedKeyExchange × P224EncryptedKeyExchange × List Result) := do
  let (client, client_dh) ← client.getNextMessage
  let (server, server_dh) ← server.getNextMessage
  let (client, client_heard) ← processMessage p224 client server_dh
  let (server, server_heard) ← processMessage p224 server client_dh
  let (client, client_hash) ← client.getNextMessage
  let (server, server_hash) ← server.getNextMessage
  let (client, client_checked) ← processMessage p224 client server_hash
  let (server, server_checked) ← processMessage p224 server client_hash
  return (client, server, [client_heard, server_heard, client_checked, server_checked])

/-! ### Whatever arrives -/

def own : PeerType := if exchange.is_server_ then .kPeerTypeServer else .kPeerTypeClient

def peer : PeerType := if exchange.is_server_ then .kPeerTypeClient else .kPeerTypeServer

/-- The masked values of the client and of the server, where the party read `heard`. -/
def transcript (heard : List Byte) : List Byte × List Byte :=
  let said := p224.toString (masked p224 exchange.is_server_ exchange.x_ exchange.pw_)
  if exchange.is_server_ then (heard, said) else (said, heard)

def contents (heard : List Byte) (peer_type : PeerType) : List Byte :=
  exchange.hashContents peer_type (transcript p224 exchange heard).1 (transcript p224 exchange heard).2
    exchange.key_

/-- A party after calls with any messages, and the masked value that it read. -/
inductive Reached : P224EncryptedKeyExchange → Option (List Byte) → Prop
  | start (peer_type : PeerType) (password x_ : List Byte) : Reached (new p224 peer_type password x_) none
  | sent {exchange after : P224EncryptedKeyExchange} {heard : Option (List Byte)} {message : List Byte}
      (before : Reached exchange heard) (sends : exchange.getNextMessage = some (after, message)) : Reached after heard
  | received {exchange after : P224EncryptedKeyExchange} {heard : Option (List Byte)} {message : List Byte}
      {result : Result} (before : Reached exchange heard)
      (processes : processMessage p224 exchange message = some (after, result)) :
      Reached after (if result = .kResultPending then some message else heard)

def State.hasHeard : State → Bool
  | .kStateInitial | .kStateRecvDH => false
  | .kStateSendHash | .kStateRecvHash | .kStateDone => true

structure Keeps (heard : Option (List Byte)) : Prop where
  password : exchange.pw_.length = 28
  stage : exchange.state_.hasHeard = heard.isSome
  silent : heard = none →
    exchange.next_message_ = p224.toString (masked p224 exchange.is_server_ exchange.x_ exchange.pw_)
  listened : ∀ message, heard = some message → message.length = 56 ∧ exchange.key_.length = 56 ∧
    exchange.next_message_ = p224.sha256HashString (contents p224 exchange message exchange.own) ∧
    exchange.expected_authenticator_ =
      p224.sha256HashString (contents p224 exchange message exchange.peer)

theorem shared_comm (x y pw_ : List Byte) :
    scalarMult (masked p224 true y pw_ + -scalarMult p224.kN pw_) x =
      scalarMult (masked p224 false x pw_ + -scalarMult p224.kM pw_) y := by
  simp only [masked, if_true, Bool.false_eq_true, if_false, add_neg_cancel_right, scalarMult]
  exact smul_comm _ _ _

section Agreement
variable {p224 exchange} (lawful : p224.Lawful)
include lawful

variable {after : P224EncryptedKeyExchange} {heard : Option (List Byte)}

omit lawful in
theorem Keeps.sent (keeps : Keeps p224 exchange heard) {message : List Byte}
    (sends : exchange.getNextMessage = some (after, message)) : Keeps p224 after heard := by
  have stage := keeps.stage
  unfold getNextMessage at sends
  split at sends
  next initial =>
    cases sends
    exact ⟨keeps.password, by rw [← stage, initial]; rfl, keeps.silent, keeps.listened⟩
  next sending =>
    cases sends
    exact ⟨keeps.password, by rw [← stage, sending]; rfl, keeps.silent, keeps.listened⟩
  next => cases sends

theorem Keeps.received (keeps : Keeps p224 exchange heard) {message : List Byte} {result : Result}
    (processes : processMessage p224 exchange message = some (after, result)) :
    Keeps p224 after (if result = .kResultPending then some message else heard) := by
  have stage := keeps.stage
  unfold processMessage at processes
  split at processes
  next receiving =>
    split_ifs at processes
    all_goals
      cases processes
      rw [if_neg (by decide)]
    · exact ⟨keeps.password, stage, keeps.silent, keeps.listened⟩
    · exact ⟨keeps.password, stage, keeps.silent, keeps.listened⟩
    · exact ⟨keeps.password, by rw [← stage, receiving]; rfl, keeps.silent, keeps.listened⟩
  next receiving =>
    split at processes
    next =>
      cases processes
      exact ⟨keeps.password, stage, keeps.silent, keeps.listened⟩
    next point parsed =>
      cases processes
      have said := keeps.silent (Option.not_isSome_iff_eq_none.mp (by simp [← stage, receiving, State.hasHeard]))
      refine ⟨keeps.password, rfl, fun none => (by cases none), fun other same => ?_⟩
      cases same
      refine ⟨lawful.read _ _ parsed, lawful.rendered _, ?_⟩
      cases role : exchange.is_server_ <;>
        simp [contents, transcript, own, peer, calculateHash, hashContents, role, said]
  next => cases processes

theorem Reached.keeps (reached : Reached p224 exchange heard) : Keeps p224 exchange heard := by
  induction reached with
  | start peer_type password x_ =>
    refine ⟨?_, rfl, fun _ => rfl, fun _ some => (by cases some)⟩
    rw [new, hashedPassword, List.length_take, lawful.digest]
    rfl
  | sent before sends ih => exact ih.sent sends
  | received before processes ih => exact ih.received lawful processes

theorem length_transcript {message : List Byte} (long : message.length = 56) :
    (transcript p224 exchange message).1.length = 56 ∧ (transcript p224 exchange message).2.length = 56 := by
  unfold transcript
  split
  next => exact ⟨long, lawful.rendered _⟩
  next => exact ⟨lawful.rendered _, long⟩

end Agreement

/-! ### A group of two points -/

def twoPoints : Primitives (ZMod 2) where
  kBasePoint := 1
  kM := 1
  kN := 1
  negate := Neg.neg
  toString point := List.replicate 55 0 ++ [if point = 0 then 0 else 1]
  setFromString string := if string = List.replicate 55 0 ++ [1] then some 1 else none
  sha256HashString bytes := List.replicate 27 0 ++ [1, 0, 0, 0, BitVec.ofNat 8 bytes.length]

theorem twoPoints_lawful : twoPoints.Lawful where
  negate _ _ := rfl
  rendered _ := rfl
  reads := by decide
  read string point reads := by
    simp only [twoPoints] at reads
    split at reads
    next same => rw [same]; rfl
    next => cases reads
  digest _ := rfl

def kM : P224.Point where
  x := ![174237515, 77186811, 235213682, 33849492, 33188520, 48266885, 177021753, 81038478]
  y := ![104523827, 245682244, 266509668, 236196369, 28372046, 145351378, 198520366, 113345994]
  z := ![1, 0, 0, 0, 0, 0, 0, 0]

def kN : P224.Point where
  x := ![136176322, 263523628, 251628795, 229292285, 5034302, 185981975, 171998428, 11653062]
  y := ![197567436, 51226044, 60372156, 175772188, 42075930, 8083165, 160827401, 65097570]
  z := ![1, 0, 0, 0, 0, 0, 0, 0]

def mask (is_server_ : Bool) : P224.Point := if is_server_ then kN else kM

/-- The points of `Init`. -/
def initPoint (is_server_ : Bool) (x_ pw_ : List Byte) : Audited P224.Point := do
  let X ← P224.scalarMult P224.kBasePoint x_
  let MNpw ← P224.scalarMult (mask is_server_) pw_
  P224.addJacobian X MNpw

/-- The points of `ProcessMessage`. -/
def sharedPoint (is_server_ : Bool) (x_ pw_ : List Byte) (Ystar : P224.Point) : Audited P224.Point := do
  let MNpw ← P224.scalarMult (mask (!is_server_)) pw_
  let minus_MNpw ← P224.negate MNpw
  let Y ← P224.addJacobian Ystar minus_MNpw
  P224.scalarMult Y x_

theorem mask_represents (is_server_ : Bool) : ∃ point, (mask is_server_).Represents point := by
  have on : ∀ is_server_, P224.valueOf (mask is_server_).y ^ 2 ≡ P224.valueOf (mask is_server_).x ^ 3 +
      -3 * P224.valueOf (mask is_server_).x + P224.valueOf P224.kB [ZMOD P224.prime] := by decide
  have cast := (ZMod.intCast_eq_intCast_iff _ _ _).mpr (on is_server_)
  push_cast at cast
  cases is_server_
  all_goals exact P224.exists_represents (by decide) (by decide) cast

theorem sharedPoint_represents {is_server_ : Bool} {pw_ : List Byte} {Ystar : P224.Point}
    {MN peer : P224.curve.Point} (masks : (mask (!is_server_)).Represents MN) (finite : scalarMult MN pw_ ≠ 0)
    (heard : Ystar.Represents peer) (x_ : List Byte) :
    (sharedPoint is_server_ x_ pw_ Ystar).Meets fun k => k.Represents (scalarMult (peer + -scalarMult MN pw_) x_) :=
  (P224.scalarMult_represents masks pw_).bind fun _ masked =>
    ((P224.negate_meets masked.bounded).mono fun _ denotes => denotes.represents (Nat.le_refl _)
      (Jacobian.represents_affineNeg (masked.represents.elim (fun infinite => absurd infinite.2 finite) And.left)
        masked.represents)).bind fun _ negative =>
      (P224.addJacobian_represents heard negative).bind fun _ sum => P224.scalarMult_represents sum x_

/-- Without overflow the limbs of both parties come to one shared point, in whatever form each receives the other's. -/
theorem limbs_agree (x y pw_ : List Byte)
    (finite : ∀ is_server_, ¬P224.valueOf (P224.scalarMult (mask is_server_) pw_).value.z ≡ 0 [ZMOD P224.prime]) :
    ∃ X Y k : P224.curve.Point,
      ((initPoint false x pw_).Meets fun Xstar => Xstar.Represents X) ∧
      ((initPoint true y pw_).Meets fun Ystar => Ystar.Represents Y) ∧
      (∀ Ystar : P224.Point, Ystar.Represents Y → (sharedPoint false x pw_ Ystar).Meets fun out => out.Represents k) ∧
      ∀ Xstar : P224.Point, Xstar.Represents X → (sharedPoint true y pw_ Xstar).Meets fun out => out.Represents k := by
  obtain ⟨base, kBasePoint⟩ := P224.kBasePoint_represents
  obtain ⟨M, kM⟩ := mask_represents false
  obtain ⟨N, kN⟩ := mask_represents true
  let p224 : Primitives P224.curve.Point := ⟨base, M, N, Neg.neg, fun _ => [], fun _ => none, id⟩
  have finiteM : scalarMult M pw_ ≠ 0 := (P224.infinite_iff (P224.scalarMult_represents kM pw_).2).not.mp (finite false)
  have finiteN : scalarMult N pw_ ≠ 0 := (P224.infinite_iff (P224.scalarMult_represents kN pw_).2).not.mp (finite true)
  refine ⟨masked p224 false x pw_, masked p224 true y pw_,
    scalarMult (masked p224 true y pw_ + -scalarMult N pw_) x, ?_, ?_, ?_, ?_⟩
  · exact (P224.scalarMult_represents kBasePoint x).bind fun _ left =>
      (P224.scalarMult_represents kM pw_).bind fun _ right => P224.addJacobian_represents left right
  · exact (P224.scalarMult_represents kBasePoint y).bind fun _ left =>
      (P224.scalarMult_represents kN pw_).bind fun _ right => P224.addJacobian_represents left right
  · exact fun _ heard => @sharedPoint_represents false _ _ _ _ kN finiteN heard x
  · rw [shared_comm p224]
    exact fun _ heard => @sharedPoint_represents true _ _ _ _ kM finiteM heard y

/-- The masks themselves are not infinity. -/
theorem limbs_agree_one : ∃ k : P224.curve.Point,
    ((initPoint false [2] [1] >>= sharedPoint true [3] [1]).Meets fun out => out.Represents k) ∧
      (initPoint true [3] [1] >>= sharedPoint false [2] [1]).Meets fun out => out.Represents k := by
  have finite (is_server_ : Bool) :
      ¬P224.valueOf (P224.scalarMult (mask is_server_) [1]).value.z ≡ 0 [ZMOD P224.prime] := by
    obtain ⟨point, represents⟩ := mask_represents is_server_
    have multiple := (P224.scalarMult_represents represents [1]).2
    rw [show Jacobian.ofBits ([1].flatMap P224.bitsOfByte) = 1 by decide, one_nsmul] at multiple
    rw [P224.infinite_iff multiple, ← P224.infinite_iff represents]
    cases is_server_ <;> decide
  obtain ⟨X, Y, k, client, server, toClient, toServer⟩ := limbs_agree [2] [3] [1] finite
  exact ⟨k, client.bind toServer, server.bind toClient⟩

end P224EncryptedKeyExchange
end Libchrome.Crypto
