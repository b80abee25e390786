import UnionFS.Proofs.Network.Write

/-!
# A client's write to one server

A write in pieces fails only if its first piece does: from then on the client can say how much was
written (`writeSplit_eq`).  So a client that is told of a failure although the server's tree has
changed has lost the reply to the first piece (`request_write_losesReply_iff`).
-/

namespace UnionFS

open Dialogue Wire Client

namespace Plan

variable {Call : Type} {Answer : Call → Type} {α : Type}

/-- Whatever is answered, the plan ends in a value with `P`. -/
def Ends (P : α → Prop) : Plan Call Answer α → Prop
  | done a => P a
  | ask _ next => ∀ answer, (next answer).Ends P

end Plan

namespace Client

variable {S L α : Type}

theorem ends_run {P : α → Prop} {p : Exchanges α} (h : p.Ends P) (net : Carrier (StateM S) L)
    (limits : Limits) (c : Connection L) (s : S) :
    P (p.run (Connection.single net limits) c s).1.1 := by
  induction p generalizing c s with
  | done a => exact h
  | ask q next ih => exact ih _ (h _) _ _

/-- Once something has been written, the client can say how much. -/
theorem ends_writeOn (path : String) (data : Bytes) (offset limit : Nat) {written : Nat}
    (hw : written ≠ 0) :
    (writeOn path data offset limit written).Ends fun outcome => ∃ n, outcome = .ok n := by
  fun_induction writeOn path data offset limit written
  case case1 => exact ⟨_, rfl⟩
  case case2 written chunk position h ih =>
      intro answer
      cases answer with
      | error code =>
          -- a short write is no failure
          exact ⟨UInt64.ofNat written, if_neg hw⟩
      | ok count =>
          dsimp only
          split
          · exact ⟨_, rfl⟩
          · next hgoes => exact ih count hgoes (by omega)

/-- What follows the first piece of a write, of which so many bytes were written. -/
def writeRest (path : String) (data : Bytes) (offset limit : UInt64) (count : UInt64) :
    Exchanges (Outcome UInt64) :=
  let chunk := data.take limit.toNat
  let count := min count.toNat chunk.length
  if count < chunk.length ∨ data.length ≤ count ∨ count = 0 then .done (.ok (UInt64.ofNat count))
  else writeOn path data offset.toNat limit.toNat count

theorem ends_writeRest (path : String) (data : Bytes) (offset limit count : UInt64) :
    (writeRest path data offset limit count).Ends fun outcome => ∃ n, outcome = .ok n := by
  rw [writeRest]
  split
  · exact ⟨_, rfl⟩
  · next hgoes => exact ends_writeOn path data _ _ fun h => hgoes (.inr (.inr h))

/-- Nothing follows a piece that was all there is. -/
theorem writeRest_of_one (path : String) (offset : UInt64) {data : Bytes} {limit : UInt64}
    (h : data.length ≤ limit.toNat) :
    writeRest path data offset limit (UInt64.ofNat data.length) =
      .done (.ok (UInt64.ofNat data.length)) := by
  have hlen : (UInt64.ofNat data.length).toNat = data.length :=
    toNat_ofNat_length (Nat.lt_of_le_of_lt h limit.toNat_lt)
  rw [writeRest, List.take_of_length_le h, hlen, Nat.min_self,
    if_pos (.inr (.inl (Nat.le_refl _)))]

/-- A write fails as its first piece does, and after that no more. -/
theorem writeSplit_eq (path : String) (data : Bytes) (offset limit : UInt64) :
    writeSplit path data offset limit =
      .ask (.write path (data.take limit.toNat) offset) fun
        | .error code => .done (.error code)
        | .ok count => writeRest path data offset limit count := by
  have hposition : ¬ offsetEnd ≤ offset.toNat + 0 := Nat.not_le.mpr offset.toNat_lt
  rw [writeSplit, writeOn]
  dsimp only
  rw [if_neg hposition, List.drop_zero, Nat.add_zero, UInt64.ofNat_toNat]
  refine congrArg _ (funext fun answer => ?_)
  cases answer with
  | error code => rfl
  | ok count =>
      dsimp only
      rw [writeRest]
      simp only [Nat.zero_add, dite_eq_ite]

namespace Connection

variable {c : Connection L} {r : Remote} {e : Export} {path : String} {data : Bytes}
  {offset : UInt64}

/-- A write that the client makes loses the reply to its first piece. -/
structure LosesReply (c : Connection L) (r : Remote) (e : Export) (path : String) (data : Bytes)
    (offset : UInt64) : Prop where
  up : c.line ≠ none
  short : (Utf8.encode path).length ≤ c.config.maxPath.toNat
  lost : r.LosesReply e path (data.take c.config.maxIo.toNat) offset

/-- The first piece of a write decides whether the client is told of a failure. -/
theorem request_write (hshort : (Utf8.encode path).length ≤ c.config.maxPath.toNat)
    (r : Remote) :
    c.request Remote.carrier (.write path data offset) r =
      (let first := c.transact Remote.carrier
        (exchange c.config.limits (.write path (data.take c.config.maxIo.toNat) offset)) r
       match first.1.1 with
       | .error code => ((.error code, first.1.2), first.2)
       | .ok count =>
         (writeRest path data offset c.config.maxIo count).run
          (single Remote.carrier c.config.limits) first.1.2 first.2) := by
  have hlong : ¬ c.config.maxPath.toNat <
      (Utf8.encode (Request.write path data offset).path).length := Nat.not_lt.mpr hshort
  rw [request_eq, if_neg hlong, split, writeSplit_eq, run_ask]
  dsimp only
  generalize c.transact Remote.carrier _ r = x
  rcases x with ⟨⟨_ | _, c'⟩, r'⟩ <;> rfl

/-- **A client is told of a failure although the tree has changed exactly if a reply is lost.** -/
theorem request_write_losesReply_iff (h : c.line ≠ none → r.Resting e) :
    ((∃ code, (c.request Remote.carrier (.write path data offset) r).1.1 = .error code)
      ∧ (c.request Remote.carrier (.write path data offset) r).2.tree ≠ r.tree) ↔
    c.LosesReply r e path data offset := by
  by_cases hshort : (Utf8.encode path).length ≤ c.config.maxPath.toNat
  case neg =>
      have hlong : c.config.maxPath.toNat <
          (Utf8.encode (Request.write path data offset).path).length := Nat.not_le.mp hshort
      rw [request_eq, if_pos hlong]
      constructor
      · rintro ⟨_, hchanged⟩
        exact absurd rfl hchanged
      · intro hlost
        exact absurd hlost.short hshort
  rw [request_write hshort]
  cases hline : c.line with
  | none =>
      rw [transact, hline]
      constructor
      · rintro ⟨_, hchanged⟩
        exact absurd rfl hchanged
      · intro hlost
        exact absurd hline hlost.up
  | some l =>
      have hup : c.line ≠ none := by
        rw [hline]
        exact Option.some_ne_none l
      have hrests : r.Resting e := h hup
      have hlen : (Utf8.encode path).length < 2 ^ 64 :=
        Nat.lt_of_le_of_lt hshort c.config.maxPath.toNat_lt
      have hpiece : (data.take c.config.maxIo.toNat).length < 2 ^ 64 := by
        have := c.config.maxIo.toNat_lt
        rw [List.length_take]
        omega
      have hiff := Remote.exchange_losesReply_iff hrests l c.config.limits offset
        hlen hpiece
      have hsettled := Remote.settled_converse hrests.settled l (exchange c.config.limits
        (.write path (data.take c.config.maxIo.toNat) offset))
      rw [transact_eq hline]
      generalize Remote.carrier.converse l _ r = x at hiff hsettled ⊢
      have hlost : c.LosesReply r e path data offset ↔
          r.LosesReply e path (data.take c.config.maxIo.toNat) offset :=
        ⟨LosesReply.lost, fun hlost => ⟨hup, hshort, hlost⟩⟩
      rw [hlost, ← hiff]
      rcases x with ⟨e | (code | n), r'⟩
      · -- the stream has failed, and the client lets go of it
        have htree : (Remote.carrier.drop l r').2.tree = r'.tree := Remote.tree_close hsettled
        dsimp only
        rw [htree]
        refine and_congr_left' (iff_of_true ⟨_, rfl⟩ ?_)
        intro n hdone
        cases hdone
      · -- the server has refused
        refine and_congr_left' (iff_of_true ⟨code, rfl⟩ ?_)
        intro n hdone
        cases hdone
      · -- the first piece was acknowledged, so that the client can say how much was written
        dsimp only
        obtain ⟨written, hok⟩ := ends_run (ends_writeRest path data offset c.config.maxIo n)
          Remote.carrier c.config.limits c r'
        rw [hok]
        constructor
        · rintro ⟨⟨code, hfails⟩, _⟩
          cases hfails
        · rintro ⟨hfails, _⟩
          exact absurd rfl (hfails n)

/-- A write in one piece that gets through is carried out, whatever comes back of it. -/
theorem tree_request_write {q : Path} {l : L} (h : r.Resting e) (offset : UInt64)
    (hline : c.line = some l)
    (hshort : (Utf8.encode path).length ≤ c.config.maxPath.toNat) (hd : data ≠ [])
    (hone : data.length ≤ c.config.maxIo.toNat) (hr : r.GetsThrough e path data offset q) :
    (c.request Remote.carrier (.write path data offset) r).2.tree =
      (Export.writeAt q offset data r.tree).2 := by
  have hlen : data.length < 2 ^ 64 := Nat.lt_of_le_of_lt hone c.config.maxIo.toNat_lt
  have hsettled := Remote.settled_converse h.settled l
    (exchange c.config.limits (.write path data offset))
  obtain ⟨r', htree, hr'⟩ := Remote.exchange_of_getsThrough h l c.config.limits hd hlen hr
  rw [request_write hshort, List.take_of_length_le hone, transact_eq hline]
  rw [hr'] at hsettled ⊢
  by_cases hback : (ofCode 0).length
      + (Export.replySize (Export.writeAt q offset data r.tree).1).length ≤ r.returning
  · rw [if_pos hback]
    dsimp only
    rcases Export.writeAt_eq_or q offset data r.tree with hout | ⟨⟨code, hout⟩, _⟩
    · rw [hout]
      dsimp only
      rw [writeRest_of_one path offset hone]
      exact htree
    · rw [hout]
      exact htree
  · -- the client lets go of the stream, and the server finds nothing more to do
    rw [if_neg hback]
    exact (Remote.tree_close hsettled).trans htree

end Connection
end Client
end UnionFS
