import UnionFS.Proofs.Wire.Reads
import UnionFS.Session.Login
import UnionFS.Wire.Handshake

/-!
# Admission

Who is let in.  Between a client's key and the server's list stand a token of fixed width, which
cuts a long key, and a zero byte, which ends it.  What the server reads is `tokenText?`; the first
entry with it decides (`Gate.decide_eq_ok_iff` and the three statements after it), and both ends
come to the same decision (`Gate.handshake`).
-/

namespace UnionFS

open Dialogue Wire

namespace Wire

/-- What is left of a key in its token: the key cut to the token's width, up to its first zero. -/
def tokenBytes (key : String) : Bytes :=
  ((Utf8.encode key).take tokenWidth).takeWhile (· != 0)

/-- The key that is read from the token of a key, if it is a text. -/
def tokenText? (key : String) : Option String :=
  Utf8.decode (tokenBytes key)

theorem length_ofKey (key : String) : (ofKey key).length = tokenWidth := by
  have hle : ((Utf8.encode key).take tokenWidth).length ≤ tokenWidth := List.length_take_le ..
  rw [ofKey, List.length_append, List.length_replicate]
  omega

theorem takeWhile_zeros (n : Nat) : (List.replicate n (0 : UInt8)).takeWhile (· != 0) = [] := by
  cases n <;> rfl

/-- The zeros that fill up a token are not read. -/
theorem keyBytes_ofKey (key : String) : keyBytes (ofKey key) = tokenBytes key := by
  rw [keyBytes, ofKey, tokenBytes]
  generalize (Utf8.encode key).take tokenWidth = form
  rw [List.takeWhile_append, takeWhile_zeros, List.append_nil]
  split
  · next hall => exact ((List.takeWhile_prefix _).eq_of_length hall).symm
  · rfl

variable {key token : String}

/-- A key that fits in a token and has no zero in it is read as it is. -/
theorem tokenText_of_fits (hlen : (Utf8.encode key).length ≤ tokenWidth)
    (hzero : 0 ∉ Utf8.encode key) : tokenText? key = some key := by
  have hkept : (Utf8.encode key ++ []).takeWhile (· != 0) =
      Utf8.encode key ++ [].takeWhile (· != 0) :=
    List.takeWhile_append_of_pos fun b hb => bne_iff_ne.mpr fun h => hzero (h ▸ hb)
  rw [List.takeWhile_nil, List.append_nil] at hkept
  rw [tokenText?, tokenBytes, List.take_of_length_le hlen, hkept, Utf8.decode_encode]

theorem length_le_of_tokenText (h : tokenText? key = some token) :
    (Utf8.encode token).length ≤ tokenWidth := by
  rw [← Utf8.eq_encode_of_decode h, tokenBytes]
  have hcut := (List.takeWhile_prefix (l := (Utf8.encode key).take tokenWidth) (· != 0)).length_le
  have hle : ((Utf8.encode key).take tokenWidth).length ≤ tokenWidth := List.length_take_le ..
  omega

end Wire

namespace AuthorizedKeys

variable {keys : AuthorizedKeys} {key : String} {entry : AuthorizedKey}

/-- The entry has this key, and none before it has. -/
def First (keys : AuthorizedKeys) (key : String) (entry : AuthorizedKey) : Prop :=
  ∃ before after, keys = before ++ entry :: after ∧ entry.key = key ∧
    ∀ other ∈ before, other.key ≠ key

theorem find?_eq_some_iff : keys.find? key = some entry ↔ keys.First key entry := by
  rw [find?, List.find?_eq_some_iff_append]
  constructor
  · rintro ⟨hkey, before, after, rfl, hbefore⟩
    refine ⟨before, after, rfl, beq_iff_eq.mp hkey, fun other hother => ?_⟩
    simpa using hbefore other hother
  · rintro ⟨before, after, rfl, hkey, hbefore⟩
    refine ⟨beq_iff_eq.mpr hkey, before, after, rfl, fun other hother => ?_⟩
    simpa using hbefore other hother

theorem find?_eq_none_iff : keys.find? key = none ↔ ∀ entry ∈ keys, entry.key ≠ key := by
  simp [find?]

/-- The fields of a line are words. -/
theorem fields_ne_empty_of_ofLine {line : List Char} (h : AuthorizedKey.ofLine? line = some entry) :
    entry.root ≠ "" ∧ entry.user ≠ "" ∧ entry.key ≠ "" := by
  rw [AuthorizedKey.ofLine?] at h
  split at h
  · cases h
  · split at h
    · next root user last hwords =>
      cases h
      have hword : ∀ word ∈ [root, user, last], String.ofList word ≠ "" := by
        intro word hmem hempty
        rw [← hwords] at hmem
        have hkept := (List.mem_filter.mp hmem).2
        obtain rfl : word = [] := String.ofList_inj.mp hempty
        cases hkept
      exact ⟨hword root (by simp), hword user (by simp), hword last (by simp)⟩
    · cases h

/-- No entry has an empty field. -/
theorem fields_ne_empty {text : String} (h : entry ∈ parse text) :
    entry.root ≠ "" ∧ entry.user ≠ "" ∧ entry.key ≠ "" := by
  obtain ⟨line, -, hline⟩ := List.mem_filterMap.mp h
  exact fields_ne_empty_of_ofLine hline

/-- No entry has an empty key. -/
theorem key_ne_empty {text : String} (h : entry ∈ parse text) : entry.key ≠ "" :=
  (fields_ne_empty h).2.2

end AuthorizedKeys

namespace Gate

variable {g : Gate} {t : Tree} {token : String} {entry : AuthorizedKey} {e : Export}

/-- The entry's account exists and its mount is a directory, and this is the export of the two. -/
structure Opens (g : Gate) (t : Tree) (entry : AuthorizedKey) (e : Export) : Prop where
  user : g.accounts.find? entry.user = some e.user
  root : t.find (Utf8.encode entry.root) = .ok e.root
  directory : t.isDirectory e.root = true
  maxPath : e.maxPath = g.config.maxPath
  maxIo : e.maxIo = g.config.maxIo

/-- What is decided for a token, and why. -/
inductive Decides (g : Gate) (t : Tree) (token : String) : Except HandshakeFailure Export → Prop
    where
  | invalidKey : (∀ entry ∈ g.keys, entry.key ≠ token) → Decides g t token (.error .invalidKey)
  | userNotFound {entry : AuthorizedKey} :
    g.keys.First token entry → g.accounts.find? entry.user = none →
    Decides g t token (.error .userNotFound)
  | mountNotFound {entry : AuthorizedKey} {user : Account} :
    g.keys.First token entry → g.accounts.find? entry.user = some user →
    (∀ root, t.find (Utf8.encode entry.root) = .ok root → t.isDirectory root = false) →
    Decides g t token (.error .mountNotFound)
  | accepted {entry : AuthorizedKey} {e : Export} :
    g.keys.First token entry → g.Opens t entry e → Decides g t token (.ok e)

theorem decides_decide (g : Gate) (t : Tree) (token : String) :
    g.Decides t token (g.decide t token) := by
  rw [decide]
  split
  · next hnone => exact .invalidKey (AuthorizedKeys.find?_eq_none_iff.mp hnone)
  · next entry hentry =>
    have hfirst := AuthorizedKeys.find?_eq_some_iff.mp hentry
    split
    · next hnone => exact .userNotFound hfirst hnone
    · next user huser =>
      split
      · next root hroot =>
        split
        · next hdirectory => exact .accepted hfirst ⟨huser, hroot, hdirectory, rfl, rfl⟩
        · next hdirectory =>
          refine .mountNotFound hfirst huser fun other hother => ?_
          rw [hroot] at hother
          cases hother
          exact Bool.eq_false_iff.mpr hdirectory
      · next hroot =>
        refine .mountNotFound hfirst huser fun other hother => ?_
        rw [hroot] at hother
        cases hother

theorem decide_eq_iff {o : Except HandshakeFailure Export} :
    g.decide t token = o ↔ g.Decides t token o := by
  constructor
  · rintro rfl
    exact g.decides_decide t token
  intro h
  cases h with
  | invalidKey hnone => rw [decide, AuthorizedKeys.find?_eq_none_iff.mpr hnone]
  | userNotFound hfirst huser =>
      rw [decide, AuthorizedKeys.find?_eq_some_iff.mpr hfirst]
      dsimp only
      rw [huser]
  | mountNotFound hfirst huser hroot =>
      rw [decide, AuthorizedKeys.find?_eq_some_iff.mpr hfirst]
      dsimp only
      rw [huser]
      dsimp only
      split
      · next root hfound => rw [if_neg (Bool.eq_false_iff.mp (hroot root hfound))]
      · rfl
  | accepted hfirst hopens =>
      obtain ⟨huser, hroot, hdirectory, hpath, hio⟩ := hopens
      rw [decide, AuthorizedKeys.find?_eq_some_iff.mpr hfirst]
      dsimp only
      rw [huser]
      dsimp only
      rw [hroot]
      dsimp only
      rw [if_pos hdirectory, ← hpath, ← hio]

/-- What a client makes of a decision. -/
def outcomeOf : Except HandshakeFailure Export → HandshakeOutcome
  | .ok _ => .accepted
  | .error failure => .rejected failure

/-- A decision is read back from its answer. -/
theorem ofReply_reply {o : Except HandshakeFailure Export} (h : g.Decides t token o) :
    HandshakeOutcome.ofReply (reply o) = outcomeOf o := by
  cases h <;> rfl

/-- **A token is answered with the decision on the key in it**, and one that holds no text with
nothing. -/
theorem feed_login (g : Gate) {bytes : Bytes} (h : bytes.length = tokenWidth) (rest : Bytes)
    (t : Tree) :
    g.login.feed (bytes ++ rest) t =
      match Utf8.decode (keyBytes bytes) with
      | some token =>
        ⟨.done (g.decide t token), ofCommand (reply (g.decide t token)), rest, t⟩
      | none => ⟨.fail .notUtf8, [], rest, t⟩ := by
  rw [login, readKey, LawfulMonad.bind_assoc, (Reads.take_of_length h).feed_bind, ofUtf8]
  cases Utf8.decode (keyBytes bytes) with
  | none => rfl
  | some token =>
      show Progress.mk _ (_ ++ []) _ _ = _
      rw [List.append_nil]
      rfl

/-! ## Both ends -/

/-- A client takes the command that its key is answered with. -/
theorem converse_shakeHands {τ β : Type} {key : String} {far : Progress τ β} {reply : Command}
    (h : (far.hear (ofKey key)).sent = ofCommand reply) :
    (shakeHands key).converse () far =
      { near := .done (.ofReply reply), state := ()
        far := { far.hear (ofKey key) with sent := [] }
        said := ofKey key, heard := ofCommand reply } := by
  -- behind its token the client reads one word, and what it makes of a command's is known
  obtain ⟨next, hshake, hnext⟩ : ∃ next : UInt16 → Dialogue Unit HandshakeOutcome,
      (shakeHands key = .send (ofKey key) (readWord >>= next)) ∧
        next reply.word = .done (.ofReply reply) := by
    refine ⟨_, rfl, ?_⟩
    rw [Command.ofWord?_word]
    rfl
  have hword := (reads_word reply.word).converse_bind next () [] (far.hear (ofKey key))
  rw [List.append_nil, ← ofCommand, ← h, hnext] at hword
  rw [hshake, Dialogue.converse, hword, ← h]
  simp only [converse, Conversation.after, List.append_nil, List.nil_append]

/-- A client shows its key to the gate. -/
def meetKey (g : Gate) (t : Tree) (key : String) :
    Conversation Unit Tree HandshakeOutcome (Except HandshakeFailure Export) :=
  converseWith (shakeHands key) g.login () t

/-- **Both ends come to the same decision.** -/
theorem meetKey_eq (g : Gate) (t : Tree) {key : String} (h : tokenText? key = some token) :
    g.meetKey t key =
      { near := .done (outcomeOf (g.decide t token)), state := ()
        far := ⟨.done (g.decide t token), [], [], t⟩
        said := ofKey key, heard := ofCommand (reply (g.decide t token)) } := by
  have hfeed := g.feed_login (length_ofKey key) [] t
  rw [List.append_nil, keyBytes_ofKey, ← tokenText?, h] at hfeed
  have hhear := (Progress.feed_hear g.login [] (ofKey key) t).trans hfeed
  rw [meetKey, converseWith, converse_shakeHands (congrArg Progress.sent hhear), hhear,
    ofReply_reply (g.decides_decide t token)]

/-- What the two ends come to when a key with this token is shown. -/
structure Handshake (g : Gate) (t : Tree) (key token : String) : Prop where
  /-- Both ends are done, with the same decision, and nothing is left of what they said. -/
  agreed : ∃ decision, (g.meetKey t key).near = .done (outcomeOf decision) ∧
    (g.meetKey t key).far = ⟨.done decision, [], [], t⟩
  accepted : (g.meetKey t key).near = .done .accepted ↔
    ∃ entry e, g.keys.First token entry ∧ g.Opens t entry e
  invalidKey : (g.meetKey t key).near = .done (.rejected .invalidKey) ↔
    ∀ entry ∈ g.keys, entry.key ≠ token
  userNotFound : (g.meetKey t key).near = .done (.rejected .userNotFound) ↔
    ∃ entry, g.keys.First token entry ∧ g.accounts.find? entry.user = none
  mountNotFound : (g.meetKey t key).near = .done (.rejected .mountNotFound) ↔
    ∃ entry user, g.keys.First token entry ∧ g.accounts.find? entry.user = some user ∧
      ∀ root, t.find (Utf8.encode entry.root) = .ok root → t.isDirectory root = false
  /-- The first entry alone counts. -/
  first : ∀ entry, g.keys.First token entry →
    ((g.meetKey t key).near = .done .accepted ↔ ∃ e, g.Opens t entry e)
  /-- An entry whose key does not fit in a token is never the one that counts. -/
  fits : ∀ entry ∈ g.keys, tokenWidth < (Utf8.encode entry.key).length →
    ¬ g.keys.First token entry
  /-- A token that starts with a zero opens nothing. -/
  empty : token = "" → (g.meetKey t key).near = .done (.rejected .invalidKey)

theorem outcomeOf_eq_accepted {o : Except HandshakeFailure Export} :
    outcomeOf o = .accepted ↔ ∃ e, o = .ok e := by
  cases o <;> simp [outcomeOf]

theorem outcomeOf_eq_rejected {o : Except HandshakeFailure Export} {failure : HandshakeFailure} :
    outcomeOf o = .rejected failure ↔ o = .error failure := by
  cases o <;> simp [outcomeOf]

theorem near_meetKey (g : Gate) (t : Tree) {key : String} (h : tokenText? key = some token)
    {outcome : HandshakeOutcome} :
    (g.meetKey t key).near = .done outcome ↔ outcomeOf (g.decide t token) = outcome := by
  rw [g.meetKey_eq t h]
  dsimp only
  rw [Dialogue.done.injEq]

/-- There is one first entry. -/
theorem first_unique {entry' : AuthorizedKey} (h : g.keys.First token entry)
    (h' : g.keys.First token entry') : entry = entry' := by
  rw [← AuthorizedKeys.find?_eq_some_iff] at h h'
  exact Option.some.inj (h.symm.trans h')

theorem accepted_iff (g : Gate) (t : Tree) {key : String} (h : tokenText? key = some token) :
    (g.meetKey t key).near = .done .accepted ↔
      ∃ entry e, g.keys.First token entry ∧ g.Opens t entry e := by
  rw [g.near_meetKey t h, outcomeOf_eq_accepted]
  constructor
  · rintro ⟨e, he⟩
    cases decide_eq_iff.mp he with
    | accepted hfirst hopens => exact ⟨_, e, hfirst, hopens⟩
  · rintro ⟨entry, e, hfirst, hopens⟩
    exact ⟨e, decide_eq_iff.mpr (.accepted hfirst hopens)⟩

/-- **Client and server agree on whether a key is let in, and on why it is not.**  The list may be
any text. -/
theorem handshake (text : String) (accounts : Accounts) (config : ServerConfig) (t : Tree)
    {key token : String} (h : tokenText? key = some token) :
    Handshake ⟨AuthorizedKeys.parse text, accounts, config⟩ t key token := by
  have hkeys : ∀ entry ∈ AuthorizedKeys.parse text, entry.key ≠ "" := fun entry =>
    AuthorizedKeys.key_ne_empty
  generalize hg : (⟨AuthorizedKeys.parse text, accounts, config⟩ : Gate) = g
  rw [show AuthorizedKeys.parse text = g.keys from congrArg Gate.keys hg] at hkeys
  have hinvalid : (g.meetKey t key).near = .done (.rejected .invalidKey) ↔
      ∀ entry ∈ g.keys, entry.key ≠ token := by
    rw [g.near_meetKey t h, outcomeOf_eq_rejected, decide_eq_iff]
    constructor
    · intro hdecides
      cases hdecides with
      | invalidKey hnone => exact hnone
    · exact .invalidKey
  constructor
  case agreed => exact ⟨_, by rw [g.meetKey_eq t h], by rw [g.meetKey_eq t h]⟩
  case accepted => exact g.accepted_iff t h
  case invalidKey => exact hinvalid
  case userNotFound =>
      rw [g.near_meetKey t h, outcomeOf_eq_rejected, decide_eq_iff]
      constructor
      · intro hdecides
        cases hdecides with
        | userNotFound hfirst huser => exact ⟨_, hfirst, huser⟩
      · rintro ⟨entry, hfirst, huser⟩
        exact .userNotFound hfirst huser
  case mountNotFound =>
      rw [g.near_meetKey t h, outcomeOf_eq_rejected, decide_eq_iff]
      constructor
      · intro hdecides
        cases hdecides with
        | mountNotFound hfirst huser hroot => exact ⟨_, _, hfirst, huser, hroot⟩
      · rintro ⟨entry, user, hfirst, huser, hroot⟩
        exact .mountNotFound hfirst huser hroot
  case first =>
      intro entry hfirst
      rw [g.accepted_iff t h]
      constructor
      · rintro ⟨entry', e, hfirst', hopens⟩
        obtain rfl := first_unique hfirst hfirst'
        exact ⟨e, hopens⟩
      · rintro ⟨e, hopens⟩
        exact ⟨entry, e, hfirst, hopens⟩
  case fits =>
      rintro entry - hlong ⟨_, _, _, hkey, _⟩
      rw [hkey] at hlong
      exact absurd (length_le_of_tokenText h) (Nat.not_le.mpr hlong)
  case empty =>
      rintro rfl
      exact hinvalid.mpr hkeys

/-- The first entry's account does not exist, and the second does not make up for it. -/
theorem handshake_userNotFound :
    tokenText? "key" = some "key" ∧
      Handshake ⟨AuthorizedKeys.parse "/ nobody key\n/ root key\n", Accounts.superuserOnly, {}⟩
        { nodes := [([], { content := .directory, permissions := 0o755 })] } "key" "key" := by
  have htoken : tokenText? "key" = some "key" := tokenText_of_fits (by decide) (by decide)
  exact ⟨htoken, handshake _ _ _ _ htoken⟩

end Gate
end UnionFS
