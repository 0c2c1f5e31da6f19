import DistWalk.EndToEnd
import DistWalk.Sender

/-!
# The loop of a session

The sender of each session composes requests of COMPUTEs and a REPLY from its template. All
sessions go to one worker, and each receiver reads what comes back. Whatever the mixing and
the cutting, a session is given one reply with success for every packet that it has sent, in
the order of the packets, as long as no receive ends it before.
-/

namespace SessionLoop

open ByteMemory Message Connection Template TemplateDump TemplateRoundTrip Decoding Segmentation Service Sender ClientReceiver
  ReplyFraming EndToEnd

open SendStream (memOf)

/-- What the sender thread of a session works on. -/
structure Session where
  template : List CcmdNode
  firstPktId : Nat
  packets : List Packet
  sess : Nat
  sock : Nat

/-- What the REPLY at the end of the commands asks for. -/
def replySize (cmds : List (CommandType × Options)) : Nat :=
  match cmds.getLast? with
  | some (_, .reply opts) => opts.respSize
  | _ => 0

/-- What the packets of a session ask for altogether. -/
def askedBytes (template : List CcmdNode) : Nat → List Packet → Nat
  | _, [] => 0
  | pktId, p :: packets => replySize (carried template pktId p.draws) + askedBytes template (pktId + 1) packets

/-- The ids of the packets that have gone out. -/
def sentIds : Nat → List (List UInt8) → List Nat
  | _, [] => []
  | pktId, out :: rest => if out = [] then sentIds (pktId + 1) rest else pktId % 2 ^ 32 :: sentIds (pktId + 1) rest

theorem length_sentIds (pktId : Nat) (outs : List (List UInt8)) : (sentIds pktId outs).length ≤ outs.length := by
  induction outs generalizing pktId with
  | nil => exact le_rfl
  | cons out outs ih =>
    have rest := ih (pktId + 1)
    simp only [sentIds]
    split <;> simp only [List.length_cons] <;> omega

theorem sentIds_lt {pktId id : Nat} {outs : List (List UInt8)} (member : id ∈ sentIds pktId outs) :
    id < pktId + outs.length := by
  induction outs generalizing pktId with
  | nil => cases member
  | cons out outs ih =>
    simp only [sentIds] at member
    rw [List.length_cons]
    split at member
    · have := ih member
      omega
    · rcases List.mem_cons.mp member with rfl | later
      · have := Nat.mod_le pktId (2 ^ 32)
        omega
      · have := ih later
        omega

/-! ## The requests of a session -/

theorem Each.mono {P Q : Nat → Packet → Prop} (h : ∀ id p, P id p → Q id p) {pktId : Nat} {packets : List Packet}
    (each : Each P pktId packets) : Each Q pktId packets := by
  induction packets generalizing pktId with
  | nil => trivial
  | cons p packets ih => exact ⟨h _ _ each.1, ih each.2⟩

/-- The requests of a session: a tag for each packet that went out. -/
structure Asks (s : Session) (outs : List (List UInt8)) (rs : List Request) : Prop where
  bytes : outs.flatten = stream rs
  length : outs.length = s.packets.length
  tags : rs.map requestTag = (sentIds s.firstPktId outs).map fun id => ⟨id, statusSuccess⟩
  volume : volume rs ≤ askedBytes s.template s.firstPktId s.packets
  asked : ∀ r ∈ rs, r.opts.mode ≠ .sendfile ∧ 44 ≤ r.opts.respSize

theorem Asks.few {s : Session} {outs : List (List UInt8)} {rs : List Request} (h : Asks s outs rs) :
    rs.length ≤ s.packets.length := by
  have lengths := congrArg List.length h.tags
  rw [List.length_map, List.length_map] at lengths
  have ids := length_sentIds s.firstPktId outs
  have length := h.length
  omega

theorem Asks.indexed {s : Session} {outs : List (List UInt8)} {rs : List Request} (h : Asks s outs rs)
    {perSession : Bool} (numbered : perSession = true ∨ s.firstPktId + s.packets.length ≤ maxPkts) :
    ∀ q ∈ rs, (requestTag q).Indexed perSession := by
  intro q member
  have inside : requestTag q ∈ rs.map requestTag := List.mem_map_of_mem member
  rw [h.tags] at inside
  obtain ⟨id, here, same⟩ := List.mem_map.mp inside
  have small := sentIds_lt here
  rw [h.length] at small
  rw [← same]
  exact fun _ => numbered.imp_right fun below => lt_of_lt_of_le small below

end SessionLoop
