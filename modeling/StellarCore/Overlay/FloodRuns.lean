import StellarCore.Overlay.Floodgate

/-!
# Whom a broadcast reaches

In every run a record names the peers that sent its message or were sent it
since the record was created.  A broadcast therefore reaches the others that
are connected and authenticated.  A forced broadcast is no different: the new
record is dropped where there is one, and who was told already is passed over.
-/

namespace StellarCore.Overlay

variable {Peer Message Hash : Type}

/-! ## The loop over the peers -/

namespace Floodgate

section Loop

variable [DecidableEq Peer]

/-- The peers that the loop sends to, and the peers told afterwards. -/
structure Tells (peers : List (Peer × Bool)) (told : List (Option Peer))
    (result : List (Option Peer) × List Peer) : Prop where
  nodup : result.2.Nodup
  sent : ∀ peer, peer ∈ result.2 ↔ (peer, true) ∈ peers ∧ some peer ∉ told
  told : ∀ peer, some peer ∈ result.1 ↔ some peer ∈ told ∨ peer ∈ result.2

theorem tellPeers_tells (peers : List (Peer × Bool))
    (told : List (Option Peer)) : Tells peers told (tellPeers peers told) := by
  induction peers generalizing told with
  | nil =>
      refine ⟨List.nodup_nil, ?_, ?_⟩
      · intro peer
        simp [tellPeers]
      · intro peer
        simp [tellPeers]
  | cons head peers ih =>
      obtain ⟨first, isAuthenticated⟩ := head
      rw [tellPeers]
      split
      · rename_i reached
        obtain ⟨untold, rfl⟩ := reached
        obtain ⟨nodup, sent, toldThen⟩ := ih (some first :: told)
        refine ⟨?_, ?_, ?_⟩
        · refine List.nodup_cons.mpr ⟨?_, nodup⟩
          intro again
          exact ((sent first).mp again).2 List.mem_cons_self
        · intro peer
          rw [List.mem_cons, sent, List.mem_cons, List.mem_cons]
          by_cases same : peer = first
          · subst same
            simp [untold]
          · simp [same]
        · intro peer
          rw [toldThen, List.mem_cons, List.mem_cons, Option.some.injEq]
          tauto
      · rename_i passed
        obtain ⟨nodup, sent, toldThen⟩ := ih told
        refine ⟨nodup, ?_, toldThen⟩
        intro peer
        rw [sent, List.mem_cons]
        constructor
        · exact fun reached => ⟨.inr reached.1, reached.2⟩
        · rintro ⟨here | later, untold⟩
          · obtain ⟨rfl, rfl⟩ := Prod.mk.inj here
            exact absurd ⟨untold, rfl⟩ passed
          · exact ⟨later, untold⟩

end Loop

/-- The peers of the record for a hash, none if there is no record. -/
def peersTold (gate : Floodgate Peer Message Hash) (index : Hash) :
    List (Option Peer) :=
  ((gate.mFloodMap index).map FloodRecord.mPeersTold).getD []

/-- One record gains some peers, and is there afterwards. -/
structure Updates (gate after : Floodgate Peer Message Hash) (index : Hash)
    (added : List Peer) : Prop where
  running : after.mShuttingDown = gate.mShuttingDown
  record : ∃ record, after.mFloodMap index = some record ∧
    ∀ peer, some peer ∈ record.mPeersTold ↔
      some peer ∈ gate.peersTold index ∨ peer ∈ added
  others : ∀ other, other ≠ index →
    after.mFloodMap other = gate.mFloodMap other

section Steps

variable [DecidableEq Hash] {hash : Message → Hash}
  {gate : Floodgate Peer Message Hash} {msg : Message} {ledger : UInt32}

theorem updates_assign {index : Hash} {record : FloodRecord Peer Message}
    {added : List Peer}
    (told : ∀ peer, some peer ∈ record.mPeersTold ↔
      some peer ∈ gate.peersTold index ∨ peer ∈ added) :
    Updates gate (gate.assign index record) index added where
  running := rfl
  record := ⟨record, Function.update_self _ _ _, told⟩
  others _ different := Function.update_of_ne different _ _

theorem addRecord_updates (running : gate.mShuttingDown = false)
    (peer : Option Peer) :
    Updates gate (gate.addRecord hash msg peer ledger).1 (hash msg)
      peer.toList := by
  unfold addRecord
  simp only [running, Bool.false_eq_true, if_false]
  cases found : gate.mFloodMap (hash msg) with
  | none =>
      apply updates_assign
      intro _
      cases peer with
      | none => simp [FloodRecord.new, peersTold, found]
      | some peer => simp [FloodRecord.new, peersTold, found]
  | some record =>
      apply updates_assign
      intro _
      simp only [peersTold, found, Option.map_some, Option.getD_some,
        List.mem_cons, Option.mem_toList]
      tauto

variable [DecidableEq Peer]

/-- Whether the broadcast is forced makes no difference. -/
theorem broadcast_eq (running : gate.mShuttingDown = false)
    (peers : List (Peer × Bool)) (force : Bool) :
    (gate.broadcast hash peers msg force ledger).2 =
        (tellPeers peers (gate.peersTold (hash msg))).2 ∧
      Updates gate (gate.broadcast hash peers msg force ledger).1 (hash msg)
        (gate.broadcast hash peers msg force ledger).2 := by
  have tells := tellPeers_tells peers (gate.peersTold (hash msg))
  unfold broadcast
  simp only [running, Bool.false_eq_true, if_false]
  cases found : gate.mFloodMap (hash msg) with
  | none =>
      have nobody : gate.peersTold (hash msg) = [] := by
        rw [peersTold, found]
        rfl
      rw [nobody] at tells ⊢
      simp only [insert, found, FloodRecord.new, Option.isSome_none,
        Bool.false_eq_true, if_false, true_and]
      refine ⟨rfl, ⟨_, Function.update_self _ _ _, ?_⟩, ?_⟩
      · intro peer
        rw [nobody]
        exact tells.told peer
      · intro other different
        exact (Function.update_of_ne different _ _).trans
          (Function.update_of_ne different _ _)
  | some record =>
      have known : gate.peersTold (hash msg) = record.mPeersTold := by
        rw [peersTold, found]
        rfl
      have inserted : (if force = true then
          gate.insert (hash msg) (.new msg ledger none)
        else (gate, record)) = (gate, record) := by
        unfold insert
        rw [found]
        exact ite_self _
      simp only [inserted]
      rw [known] at tells ⊢
      refine ⟨rfl, updates_assign ?_⟩
      intro peer
      rw [known]
      exact tells.told peer

end Steps

end Floodgate

/-! ## Since a record was created -/

section History

variable [DecidableEq Hash] {index : Hash}
  {events history : List (FloodEvent Peer Message Hash)}

def FloodEvent.creates (index : Hash) : FloodEvent Peer Message Hash → Bool
  | .created other => other = index
  | _ => false

/-- The latest events, back to the creation of the record. -/
def since (index : Hash) (history : List (FloodEvent Peer Message Hash)) :
    List (FloodEvent Peer Message Hash) :=
  history.takeWhile (fun event => !event.creates index)

theorem since_append (none : ∀ event ∈ events, event.creates index = false) :
    since index (events ++ history) = events ++ since index history := by
  apply List.takeWhile_append_of_pos
  intro event member
  rw [none event member]
  rfl

theorem since_created : since index (.created index :: history) = [] := by
  apply List.takeWhile_cons_of_neg
  simp [FloodEvent.creates]

end History

namespace FloodWorld

variable [DecidableEq Peer] [DecidableEq Hash] (hash : Message → Hash)

/-- The peer sent the message, or was sent it, since the last record for it
was created. -/
def ToldSince (world : FloodWorld Peer Message Hash) (msg : Message)
    (peer : Peer) : Prop :=
  .received peer msg ∈ since (hash msg) world.history ∨
    .sent peer msg ∈ since (hash msg) world.history

/-- The records agree with the history. -/
structure Faithful (world : FloodWorld Peer Message Hash) : Prop where
  running : world.gate.mShuttingDown = false
  told : ∀ msg record, world.gate.mFloodMap (hash msg) = some record →
    ∀ peer, some peer ∈ record.mPeersTold ↔ world.ToldSince hash msg peer

variable {hash} {world : FloodWorld Peer Message Hash}

omit [DecidableEq Peer] [DecidableEq Hash] in
theorem mem_creation {msg : Message} {event : FloodEvent Peer Message Hash}
    (member : event ∈ world.creation hash msg) :
    event = .created (hash msg) := by
  unfold creation at member
  split at member
  · exact List.mem_singleton.mp member
  · cases member

omit [DecidableEq Peer] in
/-- Events of one message, with the update of its record. -/
theorem Faithful.update (collisionFree : Function.Injective hash)
    (faithful : world.Faithful hash) {msg : Message}
    {after : Floodgate Peer Message Hash} {added : List Peer}
    (updates : world.gate.Updates after (hash msg) added)
    {events : List (FloodEvent Peer Message Hash)}
    (about : ∀ event ∈ events, ∃ peer,
      event = .received peer msg ∨ event = .sent peer msg)
    (exactly : ∀ peer, (.received peer msg ∈ events ∨
      .sent peer msg ∈ events) ↔ peer ∈ added) :
    Faithful hash { world with
      gate := after
      history := events ++ world.creation hash msg ++ world.history } := by
  have quiet (index : Hash) :
      ∀ event ∈ events, event.creates index = false := by
    intro event member
    obtain ⟨peer, rfl | rfl⟩ := about event member
    · rfl
    · rfl
  refine ⟨updates.running.trans faithful.running, ?_⟩
  intro other record found peer
  by_cases same : other = msg
  · subst same
    obtain ⟨updated, there, told⟩ := updates.record
    rw [there] at found
    obtain rfl := Option.some.inj found
    rw [told peer, ← exactly]
    unfold ToldSince
    rw [List.append_assoc, since_append (quiet _)]
    simp only [List.mem_append]
    cases before : world.gate.mFloodMap (hash other) with
    | none =>
        have created : world.creation hash other =
            [.created (hash other)] := by
          simp [creation, before]
        have nobody : world.gate.peersTold (hash other) = [] := by
          simp [Floodgate.peersTold, before]
        rw [created, List.singleton_append, since_created, nobody]
        simp
    | some old =>
        have nothing : world.creation hash other = [] := by
          simp [creation, before]
        have known : world.gate.peersTold (hash other) =
            old.mPeersTold := by
          simp [Floodgate.peersTold, before]
        rw [nothing, List.nil_append, known,
          faithful.told other old before peer, ToldSince]
        tauto
  · have different : hash other ≠ hash msg :=
      fun equal => same (collisionFree equal)
    have elsewhere : ∀ event ∈ world.creation hash msg,
        event.creates (hash other) = false := by
      intro event member
      rw [mem_creation member]
      simp [FloodEvent.creates, Ne.symm different]
    rw [updates.others _ different] at found
    rw [faithful.told other record found peer]
    unfold ToldSince
    rw [List.append_assoc, since_append (quiet _), since_append elsewhere]
    have notReceived : (.received peer other :
        FloodEvent Peer Message Hash) ∉ events := by
      intro member
      obtain ⟨_, equal | equal⟩ := about _ member
      · cases equal
        exact same rfl
      · cases equal
    have notSent : (.sent peer other :
        FloodEvent Peer Message Hash) ∉ events := by
      intro member
      obtain ⟨_, equal | equal⟩ := about _ member
      · cases equal
      · cases equal
        exact same rfl
    have notCreated (event : FloodEvent Peer Message Hash)
        (other : event ≠ .created (hash msg)) :
        event ∉ world.creation hash msg :=
      fun member => other (mem_creation member)
    simp only [List.mem_append, notReceived, notSent, false_or,
      notCreated (.received peer other) (by simp),
      notCreated (.sent peer other) (by simp)]

/-- The run keeps the records in agreement with the history. -/
theorem Faithful.step (collisionFree : Function.Injective hash)
    (faithful : world.Faithful hash) (input : FloodInput Peer Message) :
    (world.step hash input).Faithful hash := by
  cases input with
  | addRecord msg peer currentLedgerSeq =>
      apply faithful.update collisionFree
        (Floodgate.addRecord_updates faithful.running peer)
      · intro event member
        obtain ⟨known, there, rfl⟩ : ∃ known, peer = some known ∧
            event = .received known msg := by
          cases peer with
          | none => cases member
          | some known =>
              exact ⟨known, rfl, List.mem_singleton.mp member⟩
        exact ⟨known, .inl rfl⟩
      · intro other
        cases peer with
        | none => simp
        | some known => simp
  | broadcast msg force currentLedgerSeq =>
      apply faithful.update collisionFree
        (Floodgate.broadcast_eq faithful.running world.peers force).2
      · intro event member
        obtain ⟨peer, _, rfl⟩ :=
          List.mem_map.mp (List.mem_reverse.mp member)
        exact ⟨peer, .inr rfl⟩
      · intro peer
        simp [sends]
  | clearBelow currentLedger =>
      refine ⟨faithful.running, ?_⟩
      intro msg record found peer
      obtain ⟨before, _⟩ := Option.filter_eq_some_iff.mp found
      exact faithful.told msg record before peer
  | connect peers => exact ⟨faithful.running, faithful.told⟩

omit [DecidableEq Peer] in
theorem start_faithful :
    (start : FloodWorld Peer Message Hash).Faithful hash := by
  refine ⟨rfl, ?_⟩
  intro msg record found
  cases found

/-! ## Whom a broadcast is to reach -/

variable (hash)

/-- What a broadcast is for.  Without force it reaches, once, every peer that
is connected and authenticated, but those that sent the message or were sent
it since its record was created; with force it reaches all of them. -/
def Floods (world : FloodWorld Peer Message Hash) :
    FloodInput Peer Message → Prop
  | .broadcast msg false currentLedgerSeq =>
      (world.sends hash (.broadcast msg false currentLedgerSeq)).Nodup ∧
      ∀ peer, peer ∈ world.sends hash
          (.broadcast msg false currentLedgerSeq) ↔
        (peer, true) ∈ world.peers ∧
          ((world.gate.mFloodMap (hash msg)).isSome = true →
            ¬ world.ToldSince hash msg peer)
  | .broadcast msg true currentLedgerSeq =>
      ∀ peer, (peer, true) ∈ world.peers →
        peer ∈ world.sends hash (.broadcast msg true currentLedgerSeq)
  | _ => True

/-- A forced broadcast meets no record that names a peer it is to reach. -/
def Unrecorded (world : FloodWorld Peer Message Hash) :
    FloodInput Peer Message → Prop
  | .broadcast msg true _ =>
      (world.gate.mFloodMap (hash msg)).isSome = true →
        ∀ peer, (peer, true) ∈ world.peers →
          ¬ world.ToldSince hash msg peer
  | _ => True

variable {hash}

theorem Faithful.sends_broadcast (faithful : world.Faithful hash)
    (msg : Message) (force : Bool) (currentLedgerSeq : UInt32) :
    (world.sends hash (.broadcast msg force currentLedgerSeq)).Nodup ∧
      ∀ peer, peer ∈ world.sends hash
          (.broadcast msg force currentLedgerSeq) ↔
        (peer, true) ∈ world.peers ∧
          ((world.gate.mFloodMap (hash msg)).isSome = true →
            ¬ world.ToldSince hash msg peer) := by
  have sent : world.sends hash (.broadcast msg force currentLedgerSeq) =
      (Floodgate.tellPeers world.peers
        (world.gate.peersTold (hash msg))).2 :=
    (Floodgate.broadcast_eq faithful.running world.peers force).1
  have tells := Floodgate.tellPeers_tells world.peers
    (world.gate.peersTold (hash msg))
  rw [sent]
  refine ⟨tells.nodup, ?_⟩
  intro peer
  rw [tells.sent]
  cases found : world.gate.mFloodMap (hash msg) with
  | none => simp [Floodgate.peersTold, found]
  | some record =>
      have told := faithful.told msg record found peer
      simp [Floodgate.peersTold, found, told]

theorem Faithful.floods_iff (faithful : world.Faithful hash)
    (input : FloodInput Peer Message) :
    world.Floods hash input ↔ world.Unrecorded hash input := by
  cases input with
  | addRecord msg peer currentLedgerSeq => exact Iff.rfl
  | clearBelow currentLedger => exact Iff.rfl
  | connect peers => exact Iff.rfl
  | broadcast msg force currentLedgerSeq =>
      have reaches := faithful.sends_broadcast msg force currentLedgerSeq
      cases force with
      | false => exact iff_of_true reaches trivial
      | true =>
          constructor
          · intro floods recorded peer connected
            exact ((reaches.2 peer).mp (floods peer connected)).2 recorded
          · intro unrecorded peer connected
            exact (reaches.2 peer).mpr
              ⟨connected, fun recorded => unrecorded recorded peer connected⟩

theorem Faithful.allSteps_iff (collisionFree : Function.Injective hash)
    (faithful : world.Faithful hash)
    (inputs : List (FloodInput Peer Message)) :
    AllSteps hash (Floods hash) world inputs ↔
      AllSteps hash (Unrecorded hash) world inputs := by
  induction inputs generalizing world with
  | nil => exact Iff.rfl
  | cons input inputs ih =>
      exact and_congr (faithful.floods_iff input)
        (ih (faithful.step collisionFree input))

/-- In every run the broadcasts reach whom they are to reach if and only if
no forced broadcast meets a record that names one of these peers. -/
theorem run_floods_iff (collisionFree : Function.Injective hash)
    (inputs : List (FloodInput Peer Message)) :
    AllSteps hash (Floods hash) (start : FloodWorld Peer Message Hash)
        inputs ↔
      AllSteps hash (Unrecorded hash) start inputs :=
  start_faithful.allSteps_iff collisionFree inputs

/-- Peer 1 sends a message and peer 2 is sent it, peer 3 is not
authenticated. -/
theorem run_floods_iff_relayed :
    AllSteps id (Floods id) (start : FloodWorld ℕ ℕ ℕ)
      [.connect [(1, true), (2, true), (3, false)],
        .addRecord 7 (some 1) 5, .broadcast 7 false 5] := by
  apply (run_floods_iff Function.injective_id _).mpr
  exact ⟨trivial, trivial, trivial, trivial⟩

/-- The own message is sent once; when it is sent again, nobody gets it. -/
theorem rebroadcast_reaches_nobody :
    ¬ AllSteps id (Floods id) (start : FloodWorld ℕ ℕ ℕ)
      ([.connect [(1, true)]] ++ rebroadcast false [7] 5 ++
        rebroadcast false [7] 5) := by
  rintro ⟨_, _, again, _⟩
  have sent := again 1 (by decide)
  have nobody : (((start : FloodWorld ℕ ℕ ℕ).step id
      (.connect [(1, true)])).step id (.broadcast 7 true 5)).sends id
        (.broadcast 7 true 5) = [] := by
    decide
  change 1 ∈ FloodWorld.sends id _ (.broadcast 7 true 5) at sent
  rw [nobody] at sent
  cases sent

end FloodWorld

end StellarCore.Overlay
