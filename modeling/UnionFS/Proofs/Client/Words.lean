import UnionFS.Proofs.Client.Rounds

/-!
# Counting in words

A client counts bytes in words of 64 bits, and its loops have no bound of their own.  Here are both
loops in words, where whatever can go wrong is a trap: a difference below zero, a sum beyond the
greatest word, a slice out of bounds, and a round more than the caller allows for.  With as many
rounds as there are pieces no trap is met, and the loops do what the requests in pieces do
(`ReadRun.goes`, `WriteRun.goes`).  So a client is safe against any server (`safe_request`).
-/

namespace UnionFS.Client

/-- What a computation on words can come to grief at. -/
inductive Trap where
  | belowZero
  | beyondRange
  | outOfBounds
  | outOfRounds
  deriving DecidableEq, Repr

namespace Words

def subtract (a b : UInt64) : Except Trap UInt64 :=
  if b ≤ a then .ok (a - b) else .error .belowZero

def add (a b : UInt64) : Except Trap UInt64 :=
  if a.toNat + b.toNat < 2 ^ 64 then .ok (a + b) else .error .beyondRange

/-- The bytes from `start` on up to `stop`. -/
def cut (data : Bytes) (start stop : UInt64) : Except Trap Bytes :=
  if start ≤ stop ∧ stop.toNat ≤ data.length then
    .ok (data.slice start.toNat (stop.toNat - start.toNat))
  else .error .outOfBounds

theorem subtract_of_le {a b : UInt64} (h : b.toNat ≤ a.toNat) :
    ∃ d, subtract a b = .ok d ∧ d.toNat = a.toNat - b.toNat :=
  ⟨a - b, if_pos (UInt64.le_iff_toNat_le.mpr h),
    UInt64.toNat_sub_of_le _ _ (UInt64.le_iff_toNat_le.mpr h)⟩

theorem add_of_lt {a b : UInt64} (h : a.toNat + b.toNat < 2 ^ 64) :
    add a b = .ok (UInt64.ofNat (a.toNat + b.toNat)) := by
  rw [add, if_pos h, UInt64.ofNat_add, UInt64.ofNat_toNat, UInt64.ofNat_toNat]

theorem add_of_le {a b : UInt64} (h : 2 ^ 64 ≤ a.toNat + b.toNat) :
    add a b = .error .beyondRange :=
  if_neg (Nat.not_lt.mpr h)

theorem cut_of_le {data : Bytes} {start stop : UInt64} (h : start.toNat ≤ stop.toNat)
    (hstop : stop.toNat ≤ data.length) :
    cut data start stop = .ok (data.slice start.toNat (stop.toNat - start.toNat)) :=
  if_pos ⟨UInt64.le_iff_toNat_le.mpr h, hstop⟩

theorem toNat_min (a b : UInt64) : (min a b).toNat = min a.toNat b.toNat := by
  rw [instMinUInt64, minOfLe]
  simp only [UInt64.le_iff_toNat_le]
  split
  all_goals omega

end Words

open Words

/-! ## Reading -/

/-- What a read makes of a reply, where `again` goes on with what has come by then. -/
def takeReply (size want : UInt64) (data : Bytes)
    (again : Bytes → Exchanges (Except Trap (Outcome Bytes))) :
    Outcome Bytes → Exchanges (Except Trap (Outcome Bytes))
  | .error code => .done (.ok (if data.isEmpty then .error code else .ok data))
  | .ok chunk =>
    if UInt64.ofNat chunk.length < want ∨ size ≤ UInt64.ofNat (data ++ chunk).length then
      .done (.ok (.ok (data ++ chunk)))
    else again (data ++ chunk)

/-- The rest of a read in words, of which `data` has come, in no more than so many rounds. -/
def readRounds (path : String) (size offset limit : UInt64) :
    Nat → Bytes → Exchanges (Except Trap (Outcome Bytes))
  | 0, _ => .done (.error .outOfRounds)
  | rounds + 1, data =>
    match subtract size (UInt64.ofNat data.length) with
    | .error trap => .done (.error trap)
    | .ok left =>
      let want := min left limit
      -- an offset out of range is looked for, and ends the read
      match add offset (UInt64.ofNat data.length) with
      | .error _ => .done (.ok (.ok data))
      | .ok position =>
        .ask (.read path want position)
          (takeReply size want data (readRounds path size offset limit rounds))

section Reading

variable {path : String} {size offset limit : UInt64} {data : Bytes} {exchanges : List Attempt}
  {out : Outcome Bytes} {rounds : Nat}

theorem toNat_length (hsize : data.length ≤ size.toNat) :
    (UInt64.ofNat data.length).toNat = data.length :=
  UInt64.toNat_ofNat_of_lt' (Nat.lt_of_le_of_lt hsize size.toNat_lt)

theorem readRounds_of_past (hsize : data.length ≤ size.toNat)
    (hpast : offsetEnd ≤ offset.toNat + data.length) :
    readRounds path size offset limit (rounds + 1) data = .done (.ok (.ok data)) := by
  have hlength := toNat_length hsize
  obtain ⟨left, hleft, -⟩ := subtract_of_le (a := size) (b := UInt64.ofNat data.length)
    (by rwa [hlength])
  have hadd : add offset (UInt64.ofNat data.length) = .error .beyondRange :=
    add_of_le (by rwa [hlength])
  rw [readRounds, hleft, hadd]

/-- One round of a read asks for the next piece. -/
theorem readRounds_of_room (hsize : data.length ≤ size.toNat)
    (hroom : offset.toNat + data.length < offsetEnd) :
    ∃ want : UInt64, want.toNat = min (size.toNat - data.length) limit.toNat
      ∧ readRounds path size offset limit (rounds + 1) data =
        .ask (nextPiece path size.toNat offset.toNat limit.toNat data)
          (takeReply size want data (readRounds path size offset limit rounds)) := by
  have hlength := toNat_length hsize
  obtain ⟨left, hleft, hdiff⟩ := subtract_of_le (a := size) (b := UInt64.ofNat data.length)
    (by rwa [hlength])
  have hwant : (min left limit).toNat = min (size.toNat - data.length) limit.toNat := by
    rw [toNat_min, hdiff, hlength]
  have hadd : add offset (UInt64.ofNat data.length) =
      .ok (UInt64.ofNat (offset.toNat + data.length)) := by
    rw [add_of_lt (by rwa [hlength]), hlength]
  have hword : UInt64.ofNat (min (size.toNat - data.length) limit.toNat) = min left limit := by
    rw [← hwant, UInt64.ofNat_toNat]
  refine ⟨min left limit, hwant, ?_⟩
  rw [readRounds, hleft, hadd]
  show _ = Plan.ask (Request.read path (UInt64.ofNat (min (size.toNat - data.length) _)) _) _
  rw [hword]

/-- A reply is compared in words as it is in numbers. -/
theorem takeReply_ok {want : UInt64} {chunk : Bytes}
    {again : Bytes → Exchanges (Except Trap (Outcome Bytes))} (hchunk : chunk.length ≤ want.toNat)
    (hall : (data ++ chunk).length ≤ size.toNat) :
    takeReply size want data again (.ok chunk) =
      if chunk.length < want.toNat ∨ size.toNat ≤ (data ++ chunk).length then
        .done (.ok (.ok (data ++ chunk)))
      else again (data ++ chunk) := by
  rw [takeReply]
  simp only [UInt64.lt_iff_toNat_lt, UInt64.le_iff_toNat_le, toNat_length hchunk,
    toNat_length hall]

/-- **A read goes in words as it does in numbers**, if there are rounds for all its pieces. -/
theorem ReadRun.goes
    (h : ReadRun path size.toNat offset.toNat limit.toNat data exchanges out)
    (hlimit : 0 < limit.toNat) (hsize : data.length ≤ size.toNat)
    (hrounds : roundsFor (size.toNat - data.length) limit.toNat ≤ rounds) :
    (readRounds path size offset limit rounds data).Goes exchanges (.ok out) := by
  induction h generalizing rounds with
  | past hend =>
      obtain ⟨rounds, rfl⟩ := exists_round hrounds
      rw [readRounds_of_past hsize hend]
      exact .done _
  | failed code hposition =>
      obtain ⟨rounds, rfl⟩ := exists_round hrounds
      obtain ⟨want, -, hround⟩ := readRounds_of_room hsize hposition
      rw [hround]
      exact .ask (.done _)
  | @last data chunk hposition hchunk hlast =>
      obtain ⟨rounds, rfl⟩ := exists_round hrounds
      obtain ⟨want, hwant, hround⟩ := readRounds_of_room hsize hposition
      rw [← hwant] at hchunk hlast
      have hall : (data ++ chunk).length ≤ size.toNat := by
        rw [List.length_append]
        omega
      rw [hround]
      refine .ask ?_
      rw [takeReply_ok hchunk hall, if_pos hlast]
      exact .done _
  | @whole data chunk later out hposition hchunk hmore _ ih =>
      obtain ⟨rounds, rfl⟩ := exists_round hrounds
      obtain ⟨want, hwant, hround⟩ := readRounds_of_room hsize hposition
      rw [← hwant] at hchunk
      have hgoes : ¬ (chunk.length < want.toNat ∨ size.toNat ≤ (data ++ chunk).length) := by
        omega
      have hleft : roundsFor (size.toNat - (data ++ chunk).length) limit.toNat ≤ rounds := by
        rw [List.length_append] at hmore ⊢
        rw [← roundsFor_sub hlimit (by omega)] at hrounds
        have hone : size.toNat - (data.length + chunk.length) =
            size.toNat - data.length - limit.toNat := by omega
        rw [hone]
        exact Nat.le_of_succ_le_succ hrounds
      rw [hround]
      refine .ask ?_
      rw [takeReply_ok (Nat.le_of_eq hchunk) (Nat.le_of_lt hmore), if_neg hgoes]
      exact ih (Nat.le_of_lt hmore) hleft

end Reading

/-! ## Writing -/

/-- What a write makes of a reply, where `again` goes on with what has been written by then. -/
def countReply (data chunk : Bytes) (written : UInt64)
    (again : UInt64 → Exchanges (Except Trap (Outcome UInt64))) :
    Outcome UInt64 → Exchanges (Except Trap (Outcome UInt64))
  | .error code => .done (.ok (if written = 0 then .error code else .ok written))
  | .ok claimed =>
    let count := min claimed (UInt64.ofNat chunk.length)
    match add written count with
    | .error trap => .done (.error trap)
    | .ok written =>
      if count < UInt64.ofNat chunk.length ∨ UInt64.ofNat data.length ≤ written then
        .done (.ok (.ok written))
      else again written

/-- The rest of a write in words, of which `written` bytes are done, in no more than so many
rounds. -/
def writeRounds (path : String) (data : Bytes) (offset limit : UInt64) :
    Nat → UInt64 → Exchanges (Except Trap (Outcome UInt64))
  | 0, _ => .done (.error .outOfRounds)
  | rounds + 1, written =>
    match add written limit with
    | .error trap => .done (.error trap)
    | .ok stop =>
      match cut data written (min (UInt64.ofNat data.length) stop) with
      | .error trap => .done (.error trap)
      | .ok chunk =>
        -- an offset out of range is looked for, and ends the write
        match add offset written with
        | .error _ => .done (.ok (.ok written))
        | .ok position =>
          .ask (.write path chunk position)
            (countReply data chunk written (writeRounds path data offset limit rounds))

section Writing

variable {path : String} {data : Bytes} {offset limit : UInt64} {exchanges : List Attempt}
  {out : Outcome UInt64} {rounds written : Nat}

/-- The start of a round of a write meets no trap. -/
theorem cut_of_fits (hdata : data.length < 2 ^ 63) (hwritten : written ≤ data.length)
    (hfits : written + limit.toNat < 2 ^ 64) :
    ∃ stop, add (UInt64.ofNat written) limit = .ok stop
      ∧ cut data (UInt64.ofNat written) (min (UInt64.ofNat data.length) stop) =
        .ok (nextChunk data limit.toNat written) := by
  have hlength := toNat_of_le_length hdata (Nat.le_refl data.length)
  have hword := toNat_of_le_length hdata hwritten
  have hstop : (UInt64.ofNat (written + limit.toNat)).toNat = written + limit.toNat :=
    UInt64.toNat_ofNat_of_lt' hfits
  have hmin : (min (UInt64.ofNat data.length) (UInt64.ofNat (written + limit.toNat))).toNat =
      min data.length (written + limit.toNat) := by
    rw [toNat_min, hlength, hstop]
  refine ⟨UInt64.ofNat (written + limit.toNat), ?_, ?_⟩
  · rw [add_of_lt (by rwa [hword]), hword]
  · rw [cut_of_le (by rw [hword, hmin]; omega) (by rw [hmin]; exact Nat.min_le_left _ _), hword,
      hmin, Bytes.slice, nextChunk, Except.ok.injEq, List.take_eq_take_iff, List.length_drop]
    omega

theorem writeRounds_of_past (hdata : data.length < 2 ^ 63) (hwritten : written ≤ data.length)
    (hfits : written + limit.toNat < 2 ^ 64) (hpast : offsetEnd ≤ offset.toNat + written) :
    writeRounds path data offset limit (rounds + 1) (UInt64.ofNat written) =
      .done (.ok (.ok (UInt64.ofNat written))) := by
  have hword := toNat_of_le_length hdata hwritten
  obtain ⟨stop, hstop, hcut⟩ := cut_of_fits hdata hwritten hfits
  have hadd : add offset (UInt64.ofNat written) = .error .beyondRange :=
    add_of_le (by rwa [hword])
  simp only [writeRounds, hstop, hcut, hadd]

/-- One round of a write sends the next piece. -/
theorem writeRounds_of_room (hdata : data.length < 2 ^ 63) (hwritten : written ≤ data.length)
    (hfits : written + limit.toNat < 2 ^ 64) (hroom : offset.toNat + written < offsetEnd) :
    writeRounds path data offset limit (rounds + 1) (UInt64.ofNat written) =
      .ask (.write path (nextChunk data limit.toNat written)
          (UInt64.ofNat (offset.toNat + written)))
        (countReply data (nextChunk data limit.toNat written) (UInt64.ofNat written)
          (writeRounds path data offset limit rounds)) := by
  have hword := toNat_of_le_length hdata hwritten
  obtain ⟨stop, hstop, hcut⟩ := cut_of_fits hdata hwritten hfits
  have hadd : add offset (UInt64.ofNat written) = .ok (UInt64.ofNat (offset.toNat + written)) := by
    rw [add_of_lt (by rwa [hword]), hword]
  simp only [writeRounds, hstop, hcut, hadd]

/-- A reply is counted in words as it is in numbers. -/
theorem countReply_ok {chunk : Bytes} {claimed : UInt64} {count : Nat}
    {again : UInt64 → Exchanges (Except Trap (Outcome UInt64))} (hdata : data.length < 2 ^ 63)
    (hcount : count = min claimed.toNat chunk.length)
    (hall : written + chunk.length ≤ data.length) :
    countReply data chunk (UInt64.ofNat written) again (.ok claimed) =
      if count < chunk.length ∨ data.length ≤ written + count then
        .done (.ok (.ok (UInt64.ofNat (written + count))))
      else again (UInt64.ofNat (written + count)) := by
  have hword : ∀ n ≤ data.length, (UInt64.ofNat n).toNat = n := fun n hn =>
    toNat_of_le_length hdata hn
  have hchunk := hword chunk.length (by omega)
  have hmin : (min claimed (UInt64.ofNat chunk.length)).toNat = count := by
    rw [toNat_min, hchunk, hcount]
  have hadd : add (UInt64.ofNat written) (min claimed (UInt64.ofNat chunk.length)) =
      .ok (UInt64.ofNat (written + count)) := by
    rw [add_of_lt, hmin, hword written (by omega)]
    rw [hmin, hword written (by omega)]
    omega
  rw [countReply, hadd]
  simp only [UInt64.lt_iff_toNat_lt, UInt64.le_iff_toNat_le, hmin, hchunk,
    hword _ (Nat.le_refl data.length), hword (written + count) (by omega)]

/-- **A write goes in words as it does in numbers**, if there are rounds for all its pieces. -/
theorem WriteRun.goes
    (h : WriteRun path data offset.toNat limit.toNat written exchanges out)
    (hlimit : 0 < limit.toNat) (hdata : data.length < 2 ^ 63) (hwritten : written ≤ data.length)
    (hfits : written + limit.toNat < 2 ^ 64)
    (hrounds : roundsFor (data.length - written) limit.toNat ≤ rounds) :
    (writeRounds path data offset limit rounds (UInt64.ofNat written)).Goes exchanges
      (.ok out) := by
  induction h generalizing rounds with
  | past hend =>
      obtain ⟨rounds, rfl⟩ := exists_round hrounds
      rw [writeRounds_of_past hdata hwritten hfits hend]
      exact .done _
  | @failed written code hposition =>
      obtain ⟨rounds, rfl⟩ := exists_round hrounds
      rw [writeRounds_of_room hdata hwritten hfits hposition]
      have hzero : UInt64.ofNat written = 0 ↔ written = 0 := by
        rw [← UInt64.toNat_inj, toNat_of_le_length hdata hwritten]
        rfl
      simp only [← hzero]
      exact .ask (.done _)
  | @last written count claimed hposition hcount hlast =>
      obtain ⟨rounds, rfl⟩ := exists_round hrounds
      have hall : written + (nextChunk data limit.toNat written).length ≤ data.length := by
        rw [length_nextChunk]
        omega
      rw [writeRounds_of_room hdata hwritten hfits hposition]
      refine .ask ?_
      rw [countReply_ok hdata hcount hall, if_pos hlast]
      exact .done _
  | @whole written count claimed later out hposition hcount hwhole hmore _ ih =>
      obtain ⟨rounds, rfl⟩ := exists_round hrounds
      obtain ⟨hone, hfits'⟩ := limit_of_whole hdata hwhole hmore
      have hgoes : ¬ (count < (nextChunk data limit.toNat written).length
          ∨ data.length ≤ written + count) := by
        omega
      have hleft : roundsFor (data.length - (written + count)) limit.toNat ≤ rounds := by
        rw [← roundsFor_sub hlimit (by omega)] at hrounds
        rw [← Nat.sub_sub, hone]
        exact Nat.le_of_succ_le_succ hrounds
      rw [writeRounds_of_room hdata hwritten hfits hposition]
      refine .ask ?_
      rw [countReply_ok hdata hcount (by omega), if_neg hgoes]
      exact ih (Nat.le_of_lt hmore) hfits' hleft

end Writing

/-! ## Requests of a connection -/

namespace Connection

variable {S L : Type}

/-- What a read in pieces can be relied on for. -/
structure SafeRead (net : Carrier (StateM S) L) (c : Connection L) (s : S) (path : String)
    (size offset : UInt64) : Prop where
  /-- No more is given than was wanted. -/
  given : ∀ data, (c.request net (.read path size offset) s).1.1 = .ok data →
    data.length ≤ size.toNat
  /-- Each exchange asks for what is missing, up to the limit, right behind what has come. -/
  asked : ∀ done x rest, c.exchanges net (.read path size offset) s = done ++ x :: rest →
    ∃ want position, x.1 = .read path want position
      ∧ moved done ≤ size.toNat
      ∧ want.toNat = min (size.toNat - moved done) c.config.maxIo.toNat
      ∧ position.toNat = offset.toNat + moved done
  /-- There are no more exchanges than pieces. -/
  rounds : (c.exchanges net (.read path size offset) s).length ≤
    roundsFor size.toNat c.config.maxIo.toNat
  /-- Counted in words, with as many rounds as there are pieces, it meets no trap and comes to the
  same. -/
  untrapped : (Utf8.encode path).length ≤ c.config.maxPath.toNat →
    (readRounds path size offset c.config.maxIo (roundsFor size.toNat c.config.maxIo.toNat) []).run
        (single net c.config.limits) c s =
      (let r := c.request net (.read path size offset) s
       ((.ok r.1.1, r.1.2), r.2))

/-- What a write in pieces can be relied on for. -/
structure SafeWrite (net : Carrier (StateM S) L) (c : Connection L) (s : S) (path : String)
    (data : Bytes) (offset : UInt64) : Prop where
  /-- No more is reported than was to be written, whatever the server claims. -/
  given : ∀ count, (c.request net (.write path data offset) s).1.1 = .ok count →
    count.toNat ≤ data.length
  /-- Each exchange sends what comes next, up to the limit, right behind what has been written: a
  slice that lies within the data and whose end is computed within the range of words. -/
  asked : ∀ done x rest, c.exchanges net (.write path data offset) s = done ++ x :: rest →
    ∃ position, x.1 = .write path (nextChunk data c.config.maxIo.toNat (moved done)) position
      ∧ moved done ≤ data.length
      ∧ moved done + c.config.maxIo.toNat < 2 ^ 64
      ∧ position.toNat = offset.toNat + moved done
  /-- There are no more exchanges than pieces. -/
  rounds : (c.exchanges net (.write path data offset) s).length ≤
    roundsFor data.length c.config.maxIo.toNat
  /-- Counted in words, with as many rounds as there are pieces, it meets no trap and comes to the
  same. -/
  untrapped : (Utf8.encode path).length ≤ c.config.maxPath.toNat →
    (writeRounds path data offset c.config.maxIo (roundsFor data.length c.config.maxIo.toNat) 0).run
        (single net c.config.limits) c s =
      (let r := c.request net (.write path data offset) s
       ((.ok r.1.1, r.1.2), r.2))

variable {net : Carrier (StateM S) L} {c : Connection L} {path : String}

/-- A request that is made goes through its exchanges. -/
theorem goes_exchanges {r : Request} (h : (Utf8.encode r.path).length ≤ c.config.maxPath.toNat)
    (s : S) : (split c.config.maxIo r).Goes (c.exchanges net r s) (c.request net r s).1.1 := by
  rw [request_of_short net h, run_single, exchanges, if_neg (Nat.not_lt.mpr h)]
  exact Plan.goes_transcript _ _ _

/-- What goes through the same exchanges comes to the same end. -/
theorem run_eq_of_goes {α : Type} {r : Request} {p : Exchanges α} {a : α} {s : S}
    (h : (Utf8.encode r.path).length ≤ c.config.maxPath.toNat)
    (hgoes : p.Goes (c.exchanges net r s) a) :
    p.run (single net c.config.limits) c s =
      (let x := c.request net r s
       ((a, x.1.2), x.2)) := by
  rw [request_of_short net h, run_single, run_single]
  rw [exchanges, if_neg (Nat.not_lt.mpr h)] at hgoes
  rw [Plan.outcome_of_goes hgoes (Plan.answers_transcript _ _ _)]

theorem within_exchanges (hnet : net.Exact) (c : Connection L) (r : Request) (s : S) :
    ∀ x ∈ c.exchanges net r s, x.Within := by
  rw [exchanges]
  split
  · exact List.forall_mem_nil _
  · exact Plan.forall_mem_transcript (within_answerOn hnet c.config.limits) _ _

/-- Too long a path is refused without any exchange. -/
theorem request_of_long {r : Request} (h : c.config.maxPath.toNat < (Utf8.encode r.path).length)
    (s : S) : (c.request net r s).1.1 = .error .nameTooLong ∧ c.exchanges net r s = [] := by
  rw [request_eq, if_pos h, exchanges, if_pos h]
  exact ⟨rfl, rfl⟩

theorem safe_read (hnet : net.Exact) (hlimit : 0 < c.config.maxIo) (s : S) (path : String)
    (size offset : UInt64) : c.SafeRead net s path size offset := by
  have hpositive : 0 < c.config.maxIo.toNat := UInt64.lt_iff_toNat_lt.mp hlimit
  rcases Nat.lt_or_ge c.config.maxPath.toNat (Utf8.encode path).length with hlong | hshort
  · obtain ⟨hrefused, hnone⟩ : (c.request net (.read path size offset) s).1.1 =
        .error .nameTooLong ∧ c.exchanges net (.read path size offset) s = [] :=
      request_of_long (r := .read path size offset) hlong s
    refine ⟨?_, ?_, ?_, fun hshort => absurd hlong (Nat.not_lt.mpr hshort)⟩
    · intro data hok
      rw [hrefused] at hok
      cases hok
    · intro done x rest heq
      rw [hnone] at heq
      exact absurd heq (by simp)
    · rw [hnone]
      exact Nat.zero_le _
  · have hrun : ReadRun path size.toNat offset.toNat c.config.maxIo.toNat []
        (c.exchanges net (.read path size offset) s)
        (c.request net (.read path size offset) s).1.1 :=
      readRun_of_goes hpositive c.config.maxIo.toNat_lt
        (goes_exchanges (r := .read path size offset) hshort s) (within_exchanges hnet c _ s)
    refine ⟨?_, ?_, hrun.length_le hpositive, fun _ => ?_⟩
    · intro data hok
      exact hrun.length_given_le (Nat.zero_le _) hok
    · intro done x rest heq
      have hasked := hrun.asked (Nat.zero_le _) c.config.maxIo.toNat_lt heq
      rwa [List.length_nil, Nat.zero_add] at hasked
    · exact run_eq_of_goes (r := .read path size offset) hshort
        (hrun.goes hpositive (Nat.zero_le _) (Nat.le_refl _))

theorem safe_write (hlimit : 0 < c.config.maxIo) (s : S) (path : String) {data : Bytes}
    (hdata : data.length < 2 ^ 63) (offset : UInt64) : c.SafeWrite net s path data offset := by
  have hpositive : 0 < c.config.maxIo.toNat := UInt64.lt_iff_toNat_lt.mp hlimit
  have hfits : 0 + c.config.maxIo.toNat < 2 ^ 64 := by
    rw [Nat.zero_add]
    exact c.config.maxIo.toNat_lt
  rcases Nat.lt_or_ge c.config.maxPath.toNat (Utf8.encode path).length with hlong | hshort
  · obtain ⟨hrefused, hnone⟩ : (c.request net (.write path data offset) s).1.1 =
        .error .nameTooLong ∧ c.exchanges net (.write path data offset) s = [] :=
      request_of_long (r := .write path data offset) hlong s
    refine ⟨?_, ?_, ?_, fun hshort => absurd hlong (Nat.not_lt.mpr hshort)⟩
    · intro count hok
      rw [hrefused] at hok
      cases hok
    · intro done x rest heq
      rw [hnone] at heq
      exact absurd heq (by simp)
    · rw [hnone]
      exact Nat.zero_le _
  · have hrun : WriteRun path data offset.toNat c.config.maxIo.toNat 0
        (c.exchanges net (.write path data offset) s)
        (c.request net (.write path data offset) s).1.1 :=
      writeRun_of_goes hpositive (goes_exchanges (r := .write path data offset) hshort s)
    refine ⟨?_, ?_, hrun.length_le hpositive, fun _ => ?_⟩
    · intro count hok
      exact hrun.given_le hdata (Nat.zero_le _) hok
    · intro done x rest heq
      have hasked := hrun.asked hdata (Nat.zero_le _) hfits heq
      rwa [Nat.zero_add] at hasked
    · exact run_eq_of_goes (r := .write path data offset) hshort
        (hrun.goes hpositive hdata (Nat.zero_le _) hfits (Nat.le_refl _))

/-- **A request in pieces is safe against any server**: it moves no more than was wanted, each piece
is computed without leaving the data or the range of words, and there are no more exchanges than
pieces. -/
theorem safe_request (hnet : net.Exact) (hlimit : 0 < c.config.maxIo) (s : S) (path : String)
    (size offset : UInt64) {data : Bytes} (hdata : data.length < 2 ^ 63) :
    c.SafeRead net s path size offset ∧ c.SafeWrite net s path data offset :=
  ⟨safe_read hnet hlimit s path size offset, safe_write hlimit s path hdata offset⟩

theorem exact_recorded : recorded.Exact := by
  intro l count bytes taken rest h
  rw [show recorded.receive l count bytes =
    if count ≤ bytes.length then (.ok (bytes.take count), bytes.drop count)
    else (.error .closed, []) from rfl] at h
  split at h
  · next hle =>
    obtain rfl : bytes.take count = taken := Except.ok.inj (Prod.mk.inj h).1
    exact List.length_take_of_le hle
  · cases (Prod.mk.inj h).1

/-- A server that has taken a piece of two bytes, and claims to have written nine. -/
def sampleBoast : Bytes := Wire.ofCode 0 ++ Wire.ofCode 0 ++ Wire.ofSize 9

/-- The greatest size and the last offset that there are. -/
def sampleGreatest : UInt64 := 0xffffffffffffffff

theorem safe_request_sample :
    recorded.Exact ∧ 0 < sampleReader.config.maxIo ∧ ([1, 2, 3] : Bytes).length < 2 ^ 63
      ∧ sampleReader.SafeRead recorded sampleBoast "/f" sampleGreatest sampleGreatest
      ∧ sampleReader.SafeWrite recorded sampleBoast "/f" [1, 2, 3] sampleGreatest :=
  ⟨exact_recorded, by decide, by decide,
    safe_request exact_recorded (by decide) sampleBoast "/f" sampleGreatest sampleGreatest
      (by decide)⟩

end Connection
end UnionFS.Client
