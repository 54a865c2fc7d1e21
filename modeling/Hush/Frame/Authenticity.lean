import Hush.Foundation.Execution
import Hush.Frame.Delivery
import Hush.Frame.PlaintextGrammar

/-! What a session key vouches for. The two ends of a session seal messages, and
whoever holds the wire hands either end any bytes, at any time and in any order.
The tag covers the opcode or status and the payload; the sequence number is
outside of it, and so is the direction, since one key serves both. -/
namespace Hush.Frame

open Hush.Foundation Execution BigEndian
open Hush.Session hiding encrypt decrypt

/-- What happens under one session key, in order: an end seals a message for a
sequence number, or accepts the data of a frame. -/
inductive WireEvent where
  | requestSealed (req : Request) (seq : UInt32) (body : List UInt8)
  | responseSealed (resp : Response) (seq : UInt32) (body : List UInt8)
  | requestAccepted (wireData : List UInt8) (req : Request) (seq : UInt32)
  | responseAccepted (wireData : List UInt8) (resp : Response)

/-- A request and a response that share a body start with the same byte. -/
def Reflects (req : Request) (resp : Response) : Prop :=
  (u16.toBeBytes req.opcode).head? = some resp.status.toU8

/-- Where the data of an accepted response comes from: the server sealed a
response of this status and payload in it, or the client a request. -/
def ResponseOrigin (log : List WireEvent) (data : List UInt8) (resp : Response) : Prop :=
  (∃ sent seq, .responseSealed sent seq data ∈ log ∧ resp.status = sent.status ∧
    (Receivable sent.payload → resp.payload = arrival sent.payload)) ∨
  ∃ sent seq, .requestSealed sent seq data ∈ log ∧ Reflects sent resp

/-- Where the data of an accepted request comes from: the client sealed a
request of this opcode and payload in it, or the server a response. -/
def RequestOrigin (log : List WireEvent) (data : List UInt8) (req : Request) : Prop :=
  (∃ sent seq, .requestSealed sent seq data ∈ log ∧ req.opcode = sent.opcode ∧
    (Receivable sent.payload → req.payload = arrival sent.payload)) ∨
  ∃ sent seq, .responseSealed sent seq data ∈ log ∧ Reflects req sent

/-- What an accepted frame proves: its data was sealed before, byte for byte. Its
sequence number is proven by nothing, as every other would do. -/
def Authentic (aead : Aead) (key : List UInt8) (log : List WireEvent) : WireEvent → Prop
  | .responseAccepted wireData resp => ∃ data, wireData = Frame.body ⟨resp.seq, data⟩ ∧
      ResponseOrigin log data resp ∧ ∀ seq,
        decodeResponse aead (some key) (Frame.body ⟨seq, data⟩) = .ok { resp with seq }
  | .requestAccepted wireData req seq => ∃ data, wireData = Frame.body ⟨seq, data⟩ ∧
      RequestOrigin log data req ∧ ∀ seq,
        decodeRequest aead (some key) (Frame.body ⟨seq, data⟩) = .ok (req, seq)
  | _ => True

section

variable {aead : Aead} {key : List UInt8} {log : List WireEvent}

/-- What was sealed came out of the encoder. -/
def Genuine (aead : Aead) (key : List UInt8) : WireEvent → Prop
  | .requestSealed req _ body => ∃ nonce, encodeRequestBody aead nonce (some key) req = .ok body
  | .responseSealed resp _ body => ∃ nonce, encodeResponseBody aead nonce (some key) resp = .ok body
  | _ => True

/-- Every event of a log is justified by the events before it. -/
structure WireInvariant (aead : Aead) (key : List UInt8) (log : List WireEvent) : Prop where
  genuine : ∀ e ∈ log, Genuine aead key e
  authentic : ∀ before e, before ++ [e] <+: log → Authentic aead key before e

theorem WireInvariant.append (h : WireInvariant aead key log) {e : WireEvent}
    (hgenuine : Genuine aead key e) (hauthentic : Authentic aead key log e) :
    WireInvariant aead key (log ++ [e]) := by
  constructor
  · intro e' he'
    obtain hold | hnew := List.mem_append.mp he'
    · exact h.genuine e' hold
    · obtain rfl := List.mem_singleton.mp hnew
      exact hgenuine
  · intro before e' hprefix
    obtain heq | hprefix := List.prefix_concat_iff.mp hprefix
    · obtain ⟨rfl, hlast⟩ := List.append_inj' heq rfl
      obtain rfl := List.singleton_inj.mp hlast
      exact hauthentic
    · exact h.authentic before e' hprefix

end

end Hush.Frame
