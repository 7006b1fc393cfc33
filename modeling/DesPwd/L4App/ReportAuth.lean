import DesPwd.L4App.AttrServer
import DesPwd.L4App.LogServer

/-!
# Which reports the log and the attribute server accept

`CheckSignature` looks at a signature only when its type byte, which the sender
chooses, is `MT_SIGNATURE_TYPE_COMMON`; every other type passes, and the flag
for the content is then whatever `m_sDecryptBuf` holds.

* `reports_authenticated`: in every run of either server whose reports all have
  a signature of that type, whatever is written is allowed by the packet's own
  signature, and the content is read under the flag of that signature.
* `forged_reports_accepted`: a packet with another type byte and no signature
  at all writes a log record, and one adds an attribute value.
-/
namespace DesPwd.L4.ReportAuth

open Run Bytes L1.BasicPacket L3.AgentReport AttrServer List

/-- **Both servers, over whole runs.** -/
theorem reports_authenticated (aes : InvCipher) (rounds : Nat) (m_sDecryptBuf : Bytes) :
    (∀ ds s, Meets (LogServer.onRawData aes) LogServer.CommonSigned ds ⟨m_sDecryptBuf, []⟩ →
        run (LogServer.onRawData aes) ds ⟨m_sDecryptBuf, []⟩ = some s → s.AllAuthentic aes) ∧
      ∀ ds s, Meets (onRawData aes rounds) AttrServer.CommonSigned ds ⟨m_sDecryptBuf, []⟩ →
        run (onRawData aes rounds) ds ⟨m_sDecryptBuf, []⟩ = some s → s.AllAuthentic aes := by
  constructor
  · intro ds s hm hr
    exact run_keeps (fun _ _ _ => LogServer.step_authentic) (fun _ h => by cases h) hm hr
  · intro ds s hm hr
    exact run_keeps (fun _ _ _ => step_authentic) (fun _ h => by cases h) hm hr

/-! ## Packets -/

/-- A log record of app 1 with one byte of text. -/
def oneLog : Bytes :=
  be32 1 ++ be32 1 ++ be32 1 ++ be32 1 ++ be16 4 ++ replicate 8 0 ++ be16 0 ++ be16 1 ++ [65]

/-- A server that knows machine 7. -/
def sampleCtx (n : Nat) : Ctx n where
  szAgentAccessKey := []
  beforeDecryptBuf := 0
  getMachineInfo := fun i => if i = 7 then some ⟨7, []⟩ else none
  sTmpBuf := Vector.replicate n 0
  beforeTmpBuf := 0

/-- App 1, on this host, with room for its logs. -/
def sampleLogCtx : LogServer.LogCtx where
  toCtx := sampleCtx _
  getAppInfo := fun i => if i = 1 then some ⟨1, 1⟩ else none
  localIps := [1]
  isLogFreqOver := fun _ _ => false
  mapAppLogShm := fun i => if i = 1 then some ⟨1⟩ else none
  getAppLogShm := fun _ => none
  writeOk := fun _ => true
  freeRow := fun _ => none
  tmNow := 0
  gettimeofday := fun _ => 0

/-- Every attribute is a number. -/
def sampleAttrCtx : AttrServer.AttrCtx where
  toCtx := sampleCtx _
  getAttrInfo := fun _ => some .num
  addOk := fun _ => true

def logPacket (bSigType : UInt8) (sig : Bytes) : LogServer.Datagram :=
  ⟨sampleLogCtx, agentPacket LogServer.cmdMoniSendLog 5 bSigType sig oneLog (commInfoBody 7)⟩

def attrPacket (bSigType : UInt8) (sig : Bytes) : AttrServer.Datagram :=
  ⟨sampleAttrCtx, agentPacket cmdMoniSendAttr 5 bSigType sig (be32 3 ++ be32 1) (commInfoBody 7)⟩

/-- What the packets of a run wrote, with their signatures. -/
def written {E : Type} (s : Option (Sock E)) : Option (List (List E × Bytes)) :=
  s.map fun s => s.handled.map fun h => (h.effects, h.packet.sSigValue)

/-- The type byte of a packet that passed the check. -/
def sigType : Option Checked → Option Nat
  | some (.ok p) => some p.bSigType
  | _ => none

theorem bSigType_of {ch : Option Checked} {t : Nat} {p : Packet} (h : sigType ch = some t)
    (hp : ch = some (.ok p)) : p.bSigType = t := by
  subst hp
  exact Option.some.inj h

/-- Signed packets, one that asks for decryption of its content and one that
does not. -/
theorem reports_authenticated_signed : (∃ s, run (LogServer.onRawData idCipher)
        [logPacket 101 (plainSig 5 209 1), logPacket 101 (plainSig 5 209 0)]
        ⟨replicate 144 0, []⟩ = some s ∧ s.AllAuthentic idCipher) ∧
      ∃ s, run (onRawData idCipher 1)
        [attrPacket 101 (plainSig 5 203 1), attrPacket 101 (plainSig 5 203 0)]
        ⟨replicate 144 0, []⟩ = some s ∧ s.AllAuthentic idCipher := by
  obtain ⟨hlog, hattr⟩ := reports_authenticated idCipher 1 (replicate 144 0)
  constructor
  · obtain ⟨s, hs⟩ := Option.isSome_iff_exists.mp (show (run (LogServer.onRawData idCipher)
        [logPacket 101 (plainSig 5 209 1), logPacket 101 (plainSig 5 209 0)]
        ⟨replicate 144 0, []⟩).isSome from by decide +kernel)
    refine ⟨s, hs, hlog _ s (meets_of_forall fun d hd _ p hp _ => ?_) hs⟩
    have ht : ∀ d ∈ [logPacket 101 (plainSig 5 209 1), logPacket 101 (plainSig 5 209 0)],
        sigType (checkBasicPacket d.buf) = some sigTypeCommon := by decide +kernel
    exact bSigType_of (ht d hd) hp
  · obtain ⟨s, hs⟩ := Option.isSome_iff_exists.mp (show (run (onRawData idCipher 1)
        [attrPacket 101 (plainSig 5 203 1), attrPacket 101 (plainSig 5 203 0)]
        ⟨replicate 144 0, []⟩).isSome from by decide +kernel)
    refine ⟨s, hs, hattr _ s (meets_of_forall fun d hd _ p hp _ => ?_) hs⟩
    have ht : ∀ d ∈ [attrPacket 101 (plainSig 5 203 1), attrPacket 101 (plainSig 5 203 0)],
        sigType (checkBasicPacket d.buf) = some sigTypeCommon := by decide +kernel
    exact bSigType_of (ht d hd) hp

theorem not_allAuthentic {E : Type} {aes : InvCipher} {s : Option (Sock E)} {e : E} {es : List E}
    (h : written s = some [(e :: es, [])]) : ∃ s', s = some s' ∧ ¬ s'.AllAuthentic aes := by
  obtain ⟨s', hs, hw⟩ := Option.map_eq_some_iff.mp h
  refine ⟨s', hs, fun ha => ?_⟩
  obtain ⟨x, hx, he⟩ := map_eq_singleton_iff.mp hw
  obtain ⟨heff, hsig⟩ := Prod.mk.inj he
  obtain ⟨flag, -, sig, hp, -⟩ := ha x (by rw [hx]; exact mem_singleton_self x)
    (by rw [heff]; exact cons_ne_nil _ _)
  rw [hsig] at hp
  cases hp

/-- One packet of type 0, without a signature, writes to either server. -/
theorem forged_reports_accepted :
    (∃ s, run (LogServer.onRawData idCipher) [logPacket 0 []] ⟨replicate 144 0, []⟩ = some s ∧
        ¬ s.AllAuthentic idCipher) ∧
      ∃ s, run (onRawData idCipher 1) [attrPacket 0 []] ⟨replicate 144 0, []⟩ =
          some s ∧ ¬ s.AllAuthentic idCipher := by
  constructor
  · have h : written (run (LogServer.onRawData idCipher) [logPacket 0 []]
        ⟨replicate 144 0, []⟩) =
        some [([.appLog ⟨1⟩ ⟨1, 1, 1, 1, 4, 0, 0, 1⟩ [65] 7], [])] := by decide +kernel
    exact not_allAuthentic h
  · have h : written (run (onRawData idCipher 1) [attrPacket 0 []]
        ⟨replicate 144 0, []⟩) = some [([.addNum 3 1 7], [])] := by decide +kernel
    exact not_allAuthentic h

end DesPwd.L4.ReportAuth
