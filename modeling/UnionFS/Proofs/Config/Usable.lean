import UnionFS.Config.Load
import UnionFS.Proofs.Client.Words

/-!
# Usable configurations

What the check of a configuration is for is that a client gets on with its servers.  A limit of zero
on blocks would keep it at one read or write for ever (`endlessRead_iff`, `endlessWrite_iff`), and a
limit of zero on the entries of a listing would cost it the connection at each listing that has any
(`dropsListings_iff`).

The check looks at nine of the ten numbers of a configuration, and at the address to listen on
(`validate_eq_ok_iff`).  So whatever is loaded, its client comes to the end of each read and write.
But the limit on entries is the number that is not looked at: a file can set it to zero, or to a
number that counts as zero, and is loaded nevertheless (`checked`, `not_always_usable`).
-/

namespace UnionFS

open Client Client.Connection Dialogue Wire

/-! ## Reads and writes -/

namespace ClientConfig

/-- Some read of a client with these settings goes on for ever: however many rounds it may take, it
runs out of them. -/
def EndlessRead (config : ClientConfig) : Prop :=
  ∃ (S L : Type) (net : Carrier (StateM S) L) (c : Connection L) (s : S) (path : String)
    (size offset : UInt64),
    net.Exact ∧ c.config = config ∧ (Utf8.encode path).length ≤ config.maxPath.toNat
      ∧ ∀ rounds, ((readRounds path size offset config.maxIo rounds []).run
          (single net config.limits) c s).1.1 = .error .outOfRounds

/-- Some write of a client with these settings goes on for ever. -/
def EndlessWrite (config : ClientConfig) : Prop :=
  ∃ (S L : Type) (net : Carrier (StateM S) L) (c : Connection L) (s : S) (path : String)
    (data : Bytes) (offset : UInt64),
    net.Exact ∧ c.config = config ∧ (Utf8.encode path).length ≤ config.maxPath.toNat
      ∧ data.length < 2 ^ 63
      ∧ ∀ rounds, ((writeRounds path data offset config.maxIo rounds 0).run
          (single net config.limits) c s).1.1 = .error .outOfRounds

end ClientConfig

namespace Client

/-- A server that sends nothing but zeros: it grants everything, and gives and takes nothing. -/
def blank : Carrier (StateM Unit) Unit where
  dial _ := fun _ => (.ok (), ())
  send _ _ := fun _ => (.ok (), ())
  receive _ count := fun _ => (.ok (List.replicate count 0), ())
  shutdown _ := fun _ => (.ok (), ())
  drop _ := fun _ => ((), ())

theorem exact_blank : blank.Exact := by
  intro l count s bytes s' h
  cases h
  exact List.length_replicate

/-- What reads zeros is given them. -/
theorem converse_blank {α : Type} {d : Dialogue Unit α} {b : Bytes} {a : α} {n : Nat}
    (h : Reads d b a) (hzeros : b = List.replicate n 0) :
    blank.converse () d () = (.ok a, ()) := by
  induction h generalizing n with
  | done a => rfl
  | @receive rest b b' a _ ih =>
      obtain ⟨-, hb, hb'⟩ := List.append_eq_replicate_iff.mp hzeros
      have hreceive : blank.receive () b.length () = (.ok b, ()) :=
        congrArg (fun zeros => (Except.ok zeros, ())) hb.symm
      rw [Carrier.converse_receive, hreceive]
      exact ih hb'

theorem single_blank_read (limits : Limits) (path : String) (offset : UInt64) {c : Connection Unit}
    (hline : c.line = some ()) :
    single blank limits (.read path 0 offset) c () = ((.ok [], c), ()) := by
  have hreply : Reads (σ := Unit) (readReply limits (.read path 0 offset))
      (Export.replyData (.ok [])) (.ok []) :=
    reads_replyData nofun (show 0 < blockLimit by decide) fun data h => by
      cases h
      exact Nat.le_refl 0
  have hzeros : Export.replyData (.ok []) = List.replicate 16 0 := rfl
  have hconverse : blank.converse () (exchange limits (.read path 0 offset)) () =
      (.ok (.ok []), ()) := by
    show blank.converse () (.send (opening _) (readReply limits _)) () = _
    rw [Carrier.converse_send]
    exact converse_blank hreply hzeros
  rw [single, transact_eq hline, hconverse]

theorem single_blank_write (limits : Limits) (path : String) (data : Bytes) (offset : UInt64)
    {c : Connection Unit} (hline : c.line = some ()) :
    single blank limits (.write path data offset) c () = ((.ok 0, c), ()) := by
  have hzero : ofCode 0 = List.replicate 8 0 := rfl
  have hzeros : ofCode 0 ++ ofSize 0 = List.replicate 16 0 := rfl
  have hopened : blank.converse () (unlessRefused (.say data)) () = (.ok (.ok ()), ()) := by
    show blank.converse () (readCode.bind _) () = _
    rw [Carrier.converse_bind, converse_blank (reads_code 0) hzero]
    rfl
  have hwritten : Reads (σ := Unit) (unlessRefused readSize) (ofCode 0 ++ ofSize 0) (.ok 0) :=
    reads_accepted (by decide) (reads_size 0)
  have hconverse : blank.converse () (exchange limits (.write path data offset)) () =
      (.ok (.ok 0), ()) := by
    show blank.converse () (.send (opening _) ((unlessRefused (.say data)).bind _)) () = _
    rw [Carrier.converse_send]
    show blank.converse () ((unlessRefused (.say data)).bind _) () = _
    rw [Carrier.converse_bind, hopened]
    exact converse_blank hwritten hzeros
  rw [single, transact_eq hline, hconverse]

/-- Where no byte may be in a block, a read of one byte makes no progress. -/
theorem readRounds_zero (rounds : Nat) {limits : Limits} {c : Connection Unit}
    (hline : c.line = some ()) :
    ((readRounds "" 1 0 0 rounds []).run (single blank limits) c ()).1.1 = .error .outOfRounds := by
  induction rounds with
  | zero => rfl
  | succ rounds ih =>
      -- a piece of no bytes comes, and leaves what the round began with
      have hround : readRounds "" 1 0 0 (rounds + 1) [] =
          .ask (.read "" 0 0) (takeReply 1 0 [] (readRounds "" 1 0 0 rounds)) := rfl
      rw [hround, run_ask]
      have hanswer := single_blank_read limits "" 0 hline
      rw [single] at hanswer
      rw [hanswer]
      exact ih

theorem writeRounds_zero (rounds : Nat) {limits : Limits} {c : Connection Unit}
    (hline : c.line = some ()) :
    ((writeRounds "" [1] 0 0 rounds 0).run (single blank limits) c ()).1.1 =
      .error .outOfRounds := by
  induction rounds with
  | zero => rfl
  | succ rounds ih =>
      have hround : writeRounds "" [1] 0 0 (rounds + 1) 0 =
          .ask (.write "" [] 0) (countReply [1] [] 0 (writeRounds "" [1] 0 0 rounds)) := rfl
      rw [hround, run_ask]
      have hanswer := single_blank_write limits "" [] 0 hline
      rw [single] at hanswer
      rw [hanswer]
      exact ih

/-- A client of the server that sends zeros. -/
def blankClient (config : ClientConfig) : Connection Unit :=
  { peer := ⟨"blank", 2678, "key"⟩, config, line := some (), connected := true }

end Client

namespace ClientConfig

variable {config : ClientConfig}

/-- **A read goes on for ever exactly if no byte may be in a block.** -/
theorem endlessRead_iff (config : ClientConfig) : config.EndlessRead ↔ config.maxIo = 0 := by
  constructor
  · rintro ⟨S, L, net, c, s, path, size, offset, hnet, rfl, hshort, hendless⟩
    by_contra hmax
    -- a round for each piece is enough
    have hsafe := safe_read hnet (UInt64.pos_iff_ne_zero.mpr hmax) s path size offset
    have hends := hendless (roundsFor size.toNat c.config.maxIo.toNat)
    rw [hsafe.untrapped hshort] at hends
    cases hends
  · intro hmax
    refine ⟨Unit, Unit, blank, blankClient config, (), "", 1, 0, exact_blank, rfl, Nat.zero_le _,
      fun rounds => ?_⟩
    rw [hmax]
    exact readRounds_zero rounds rfl

/-- **And so does a write.** -/
theorem endlessWrite_iff (config : ClientConfig) : config.EndlessWrite ↔ config.maxIo = 0 := by
  constructor
  · rintro ⟨S, L, net, c, s, path, data, offset, hnet, rfl, hshort, hdata, hendless⟩
    by_contra hmax
    have hsafe : c.SafeWrite net s path data offset :=
      safe_write (UInt64.pos_iff_ne_zero.mpr hmax) s path hdata offset
    have hends := hendless (roundsFor data.length c.config.maxIo.toNat)
    rw [hsafe.untrapped hshort] at hends
    cases hends
  · intro hmax
    refine ⟨Unit, Unit, blank, blankClient config, (), "", [1], 0, exact_blank, rfl, Nat.zero_le _,
      by decide, fun rounds => ?_⟩
    rw [hmax]
    exact writeRounds_zero rounds rfl

end ClientConfig

/-! ## Listings -/

namespace Client

variable {limits : Limits} {path : String} {code : Code} {entries : List Entry} {more : Bytes}

/-- The reply that lists these entries. -/
def listingReply (code : Code) (entries : List Entry) : Bytes :=
  ofCode code ++ (ofSize (UInt64.ofNat entries.length) ++ entries.flatMap ofEntry)

/-- The numbers and lengths of such a reply are words. -/
structure WellFormed (code : Code) (entries : List Entry) : Prop where
  granted : ¬ code < 0
  count : entries.length < 2 ^ 64
  names : ∀ e ∈ entries, (Utf8.encode e.name).length < 2 ^ 64

/-- What has been read leaves the rest to what follows. -/
theorem converse_recorded_bind {α β : Type} {d : Dialogue Unit α} {b : Bytes} {a : α}
    (h : Reads d b a) (k : α → Dialogue Unit β) (more : Bytes) :
    recorded.converse () (d >>= k) (b ++ more) = recorded.converse () (k a) more := by
  show recorded.converse () (d.bind k) (b ++ more) = _
  rw [Carrier.converse_bind, converse_recorded h]

/-- Nothing follows on what has failed. -/
theorem fst_converse_bind_of_error {α β : Type} {d : Dialogue Unit α} {b : Bytes} {e : WireError}
    (h : (recorded.converse () d b).1 = .error e) (k : α → Dialogue Unit β) :
    (recorded.converse () (d >>= k) b).1 = .error e := by
  show (recorded.converse () (d.bind k) b).1 = _
  rw [Carrier.converse_bind]
  split
  · next heq =>
    rw [heq] at h
    cases h
  · next heq =>
    rw [heq] at h
    cases h
    rfl

/-- What is left to be read of a listing once its count is known. -/
def restOfListing (limits : Limits) (count : UInt64) : Dialogue Unit (List Entry) :=
  if limits.maxEntries < count then .fail (.lengthExceeded .payload count limits.maxEntries)
  else readEntries limits.maxPath count.toNat

theorem converse_listing (h : WellFormed code entries) (b : Bytes) :
    recorded.converse () (exchange limits (.readdir path))
        (ofCode code ++ (ofSize (UInt64.ofNat entries.length) ++ b)) =
      recorded.converse ()
        (restOfListing limits (UInt64.ofNat entries.length) >>= fun listing => .done (.ok listing))
        b := by
  show recorded.converse () (.send (opening _) (unlessRefused _)) _ = _
  rw [Carrier.converse_send]
  show recorded.converse () (unlessRefused (readSize >>= restOfListing limits)) _ = _
  rw [unlessRefused, converse_recorded_bind (reads_code code), if_neg h.granted]
  show recorded.converse () ((readSize.bind (restOfListing limits)).bind _) _ = _
  rw [bind_assoc]
  exact converse_recorded_bind (reads_size _) _ _

/-- Too long a name ends a listing, as soon as its length is read. -/
theorem converse_entries_of_long {limit : UInt64}
    (hwords : ∀ e ∈ entries, (Utf8.encode e.name).length < 2 ^ 64)
    (hlong : ∃ e ∈ entries, limit.toNat < (Utf8.encode e.name).length) (more : Bytes) :
    ∃ length, (recorded.converse () (readEntries limit entries.length)
      (entries.flatMap ofEntry ++ more)).1 = .error (.lengthExceeded .name length limit) := by
  induction entries with
  | nil =>
      obtain ⟨e, he, -⟩ := hlong
      cases he
  | cons e rest ih =>
      rw [List.flatMap_cons, List.append_assoc]
      show ∃ length, (recorded.converse () (readEntry limit >>= _) _).1 = _
      rcases Nat.lt_or_ge limit.toNat (Utf8.encode e.name).length with hname | hname
      · have hmore : limit < UInt64.ofNat (Utf8.encode e.name).length :=
          (lt_ofNat_iff (hwords e List.mem_cons_self)).mpr hname
        refine ⟨UInt64.ofNat (Utf8.encode e.name).length, ?_⟩
        show (recorded.converse () (((readSize.bind _).bind _).bind _) _).1 = _
        rw [bind_assoc, bind_assoc, ofEntry, ofText, List.append_assoc, List.append_assoc]
        refine (congrArg Prod.fst (converse_recorded_bind (reads_size _) _ _)).trans ?_
        rw [if_pos hmore]
        rfl
      · have hrest : ∃ e ∈ rest, limit.toNat < (Utf8.encode e.name).length := by
          obtain ⟨e', he', hlong⟩ := hlong
          rcases List.mem_cons.mp he' with rfl | he'
          · exact absurd hlong (Nat.not_lt.mpr hname)
          · exact ⟨e', he', hlong⟩
        obtain ⟨length, herror⟩ := ih (fun e he => hwords e (List.mem_cons_of_mem _ he)) hrest
        refine ⟨length, ?_⟩
        rw [converse_recorded_bind (reads_entry hname)]
        exact fst_converse_bind_of_error herror _

namespace Connection

variable {c : Connection Unit}

/-- A listing is one exchange. -/
theorem request_readdir (hpath : (Utf8.encode path).length ≤ c.config.maxPath.toNat) (b : Bytes) :
    c.request recorded (.readdir path) b =
      c.transact recorded (exchange c.config.limits (.readdir path)) b := by
  rw [request_of_short (r := .readdir path) recorded hpath]
  rfl

theorem fst_transact_of_error {d : Dialogue Unit (Outcome (List Entry))} {b : Bytes} {e : WireError}
    (hline : c.line = some ()) (h : (recorded.converse () d b).1 = .error e) :
    (c.transact recorded d b).1 = (.error e.code, c.lost) := by
  rw [transact_eq hline]
  split
  · next heq =>
    rw [heq] at h
    cases h
  · next heq =>
    rw [heq] at h
    cases h
    rfl

/-- A listing within the limits is taken. -/
theorem request_readdir_of_fits (hline : c.line = some ())
    (hpath : (Utf8.encode path).length ≤ c.config.maxPath.toNat) (h : WellFormed code entries)
    (hcount : entries.length ≤ c.config.maxEntries.toNat)
    (hnames : ∀ e ∈ entries, (Utf8.encode e.name).length ≤ c.config.maxPath.toNat) :
    c.request recorded (.readdir path) (listingReply code entries ++ more) =
      ((.ok entries, c), more) := by
  have hfits : ¬ c.config.limits.maxEntries < UInt64.ofNat entries.length := not_lt_ofNat hcount
  have hrest : Reads (σ := Unit) (restOfListing c.config.limits (UInt64.ofNat entries.length))
      (entries.flatMap ofEntry) entries := by
    rw [restOfListing, if_neg hfits, toNat_ofNat_length h.count]
    exact reads_entries hnames
  rw [request_readdir hpath, transact_eq hline, listingReply, List.append_assoc, List.append_assoc,
    converse_listing h, converse_recorded_bind hrest]
  rfl

/-- More entries than the limit cost the connection. -/
theorem request_readdir_of_many (hline : c.line = some ())
    (hpath : (Utf8.encode path).length ≤ c.config.maxPath.toNat) (h : WellFormed code entries)
    (hcount : c.config.maxEntries.toNat < entries.length) :
    (c.request recorded (.readdir path) (listingReply code entries ++ more)).1 =
      (.error .tooLarge, c.lost) := by
  have hmany : c.config.limits.maxEntries < UInt64.ofNat entries.length :=
    (lt_ofNat_iff h.count).mpr hcount
  rw [request_readdir hpath, listingReply, List.append_assoc, List.append_assoc]
  refine fst_transact_of_error
    (e := .lengthExceeded .payload (UInt64.ofNat entries.length) c.config.maxEntries) hline ?_
  rw [converse_listing h, restOfListing, if_pos hmany]
  rfl

/-- So does too long a name. -/
theorem request_readdir_of_long (hline : c.line = some ())
    (hpath : (Utf8.encode path).length ≤ c.config.maxPath.toNat) (h : WellFormed code entries)
    (hcount : entries.length ≤ c.config.maxEntries.toNat)
    (hlong : ∃ e ∈ entries, c.config.maxPath.toNat < (Utf8.encode e.name).length) :
    (c.request recorded (.readdir path) (listingReply code entries ++ more)).1 =
      (.error .nameTooLong, c.lost) := by
  have hfits : ¬ c.config.limits.maxEntries < UInt64.ofNat entries.length := not_lt_ofNat hcount
  obtain ⟨length, herror⟩ := converse_entries_of_long h.names hlong more
  rw [request_readdir hpath, listingReply, List.append_assoc, List.append_assoc]
  refine fst_transact_of_error (e := .lengthExceeded .name length c.config.maxPath) hline ?_
  rw [converse_listing h, restOfListing, if_neg hfits, toNat_ofNat_length h.count]
  exact fst_converse_bind_of_error herror _

/-- What becomes of a listing: it is taken if it is within the limits, and otherwise costs the
connection. -/
structure TakesListing (c : Connection Unit) (path : String) (code : Code) (entries : List Entry)
    (more : Bytes) : Prop where
  taken : entries.length ≤ c.config.maxEntries.toNat →
    (∀ e ∈ entries, (Utf8.encode e.name).length ≤ c.config.maxPath.toNat) →
    c.request recorded (.readdir path) (listingReply code entries ++ more) =
      ((.ok entries, c), more)
  tooMany : c.config.maxEntries.toNat < entries.length →
    (c.request recorded (.readdir path) (listingReply code entries ++ more)).1 =
      (.error .tooLarge, c.lost)
  tooLong : entries.length ≤ c.config.maxEntries.toNat →
    (∃ e ∈ entries, c.config.maxPath.toNat < (Utf8.encode e.name).length) →
    (c.request recorded (.readdir path) (listingReply code entries ++ more)).1 =
      (.error .nameTooLong, c.lost)

theorem takesListing (hline : c.line = some ())
    (hpath : (Utf8.encode path).length ≤ c.config.maxPath.toNat) (h : WellFormed code entries)
    (more : Bytes) : c.TakesListing path code entries more where
  taken := request_readdir_of_fits hline hpath h
  tooMany := request_readdir_of_many hline hpath h
  tooLong := request_readdir_of_long hline hpath h

end Connection
end Client

namespace ClientConfig

variable {config : ClientConfig}

/-- A client with these settings loses its connection at every listing that has an entry. -/
def DropsListings (config : ClientConfig) : Prop :=
  ∀ (c : Connection Unit) (path : String) (code : Code) (entries : List Entry) (more : Bytes),
    c.config = config → c.line = some () → (Utf8.encode path).length ≤ config.maxPath.toNat →
    WellFormed code entries → entries ≠ [] →
    (c.request recorded (.readdir path) (listingReply code entries ++ more)).1.2 = c.lost

/-- **Every listing costs the connection exactly if there may be no entry in one**, where a name may
have a letter. -/
theorem dropsListings_iff (hpath : 0 < config.maxPath) :
    config.DropsListings ↔ config.maxEntries = 0 := by
  constructor
  · intro hdrops
    by_contra hmax
    -- a listing of one entry, whose name is one letter
    have hfits : WellFormed 0 [⟨"a", {}⟩] := ⟨by decide, by decide, by decide⟩
    have hcount : 1 ≤ config.maxEntries.toNat :=
      UInt64.lt_iff_toNat_lt.mp (UInt64.pos_iff_ne_zero.mpr hmax)
    have hname : ∀ e ∈ [(⟨"a", {}⟩ : Entry)],
        (Utf8.encode e.name).length ≤ config.maxPath.toNat := by
      intro e he
      rw [List.mem_singleton.mp he]
      exact UInt64.lt_iff_toNat_lt.mp hpath
    have htaken : (blankClient config).TakesListing "" 0 [⟨"a", {}⟩] [] :=
      takesListing rfl (Nat.zero_le _) hfits []
    have hlost := hdrops (blankClient config) "" 0 _ [] rfl rfl (Nat.zero_le _) hfits
      (List.cons_ne_nil _ _)
    rw [htaken.taken hcount hname] at hlost
    cases congrArg Connection.line hlost
  · rintro hmax c path code entries more rfl hline hshort hfits hne
    have hcount : c.config.maxEntries.toNat < entries.length := by
      rw [hmax]
      exact List.length_pos_iff.mpr hne
    rw [request_readdir_of_many hline hshort hfits hcount]

/-- What a client whose settings have been checked can rely on. -/
structure Usable (config : ClientConfig) : Prop where
  /-- It comes to the end of each read and write, in no more rounds than there are pieces. -/
  ends : ¬ config.EndlessRead ∧ ¬ config.EndlessWrite
  safe : ∀ {S L : Type} (net : Carrier (StateM S) L) (c : Connection L) (s : S) (path : String)
    (size offset : UInt64) (data : Bytes), net.Exact → c.config = config → data.length < 2 ^ 63 →
    c.SafeRead net s path size offset ∧ c.SafeWrite net s path data offset
  /-- A listing within its limits is taken, and any other costs it the connection. -/
  listings : ∀ (c : Connection Unit) (path : String) (code : Code) (entries : List Entry)
    (more : Bytes), c.config = config → c.line = some () →
    (Utf8.encode path).length ≤ config.maxPath.toNat → WellFormed code entries →
    c.TakesListing path code entries more
  /-- So it takes some listing that has an entry, unless the number that is not checked is zero. -/
  drops : config.DropsListings ↔ config.maxEntries = 0

end ClientConfig

/-! ## The check -/

namespace Config

variable {c : Config} {home : Option String} {path : String} {content : Except IoError String}

/-- What the check of a configuration sees to. -/
structure Checked (c : Config) : Prop where
  serverReadTimeout : 0 < c.server.readTimeout
  serverIoTimeout : 0 < c.server.ioTimeout
  serverMaxPath : 0 < c.server.maxPath
  serverMaxIo : 0 < c.server.maxIo
  heartbeatInterval : 0 < c.client.heartbeatInterval
  reconnectInterval : 0 < c.client.reconnectInterval
  clientIoTimeout : 0 < c.client.ioTimeout
  clientMaxPath : 0 < c.client.maxPath
  clientMaxIo : 0 < c.client.maxIo
  bind : c.server.bind ≠ ""

theorem fault?_eq_none_iff_checked : c.fault? = none ↔ c.Checked := by
  have hbind : c.server.bind.isEmpty = false ↔ c.server.bind ≠ "" := by
    rw [← Bool.not_eq_true, String.isEmpty_iff]
  rw [fault?_eq_none_iff, hbind]
  simp only [positives, List.forall_mem_cons, List.not_mem_nil, false_implies, implies_true,
    and_true, ← UInt64.pos_iff_ne_zero]
  constructor
  · rintro ⟨⟨h₁, h₂, h₃, h₄, h₅, h₆, h₇, h₈, h₉⟩, h⟩
    exact ⟨h₁, h₂, h₃, h₄, h₅, h₆, h₇, h₈, h₉, h⟩
  · intro h
    exact ⟨⟨h.1, h.2, h.3, h.4, h.5, h.6, h.7, h.8, h.9⟩, h.10⟩

/-- **The check passes what has nine numbers that are positive and an address to listen on.** -/
theorem validate_eq_ok_iff : c.validate = .ok () ↔ c.Checked := by
  rw [← fault?_eq_none_iff_checked, validate]
  cases c.fault? with
  | none => exact iff_of_true rfl rfl
  | some fault => exact iff_of_false nofun nofun

/-- All numbers are positive, also the one that is not checked. -/
structure Positive (c : Config) : Prop extends Checked c where
  maxEntries : 0 < c.client.maxEntries

theorem Checked.usable (h : c.Checked) : c.client.Usable where
  ends := by
    rw [ClientConfig.endlessRead_iff, ClientConfig.endlessWrite_iff, and_self]
    exact UInt64.pos_iff_ne_zero.mp h.clientMaxIo
  safe := by
    rintro S L net d s path size offset data hnet hconfig hdata
    exact safe_request hnet (hconfig ▸ h.clientMaxIo) s path size offset hdata
  listings := by
    rintro d path code entries more hconfig hline hshort hfits
    exact takesListing hline (hconfig ▸ hshort) hfits more
  drops := ClientConfig.dropsListings_iff h.clientMaxPath

/-- **A configuration that is checked is usable, but for listings**: whatever file it was loaded
from, and whoever read the file, its client comes to the end of each read and write; and it takes
listings unless their limit is zero. -/
theorem checked (c : Config) : (c.validate = .ok () ↔ c.Checked)
    ∧ ∀ read home path content, loadBy read home path content = .ok c →
      c.Checked ∧ c.client.Usable := by
  refine ⟨validate_eq_ok_iff, fun read home path content h => ?_⟩
  have hchecked := fault?_eq_none_iff_checked.mp (loadBy_ok h)
  exact ⟨hchecked, hchecked.usable⟩

/-- Files that set the limit on entries to a fraction, to a negative number and to none at all. -/
def sampleFiles : List String :=
  ["\x7bclient: \x7bmaxDirEntries: 0.5\x7d\x7d", "\x7bclient: \x7bmaxDirEntries: -5\x7d\x7d",
    "\x7bclient: \x7bmaxDirEntries: NaN\x7d\x7d"]

/-- The defaults, but for a limit of zero on entries. -/
def sampleLowered : Config :=
  { server := {}, client := { keyDir := "/h/.agfs", maxEntries := 0 } }

/-- Each of the numbers counts as zero. -/
theorem load_sampleFiles :
    ∀ text ∈ sampleFiles, load (some "/h") "agfs.json5" (.ok text) = .ok sampleLowered := by
  have hload : ∀ text ∈ sampleFiles,
      (load (some "/h") "agfs.json5" (.ok text)).toOption = some sampleLowered := by
    decide +kernel
  intro text htext
  have h := hload text htext
  cases hresult : load (some "/h") "agfs.json5" (.ok text) with
  | ok c =>
      rw [hresult] at h
      exact congrArg _ (Option.some.inj h)
  | error e =>
      rw [hresult] at h
      cases h

theorem checked_sample :
    load (some "/h") "agfs.json5" (.ok "\x7bclient: \x7bmaxDirEntries: 0.5\x7d\x7d") =
        .ok sampleLowered
      ∧ sampleLowered.validate = .ok () ∧ sampleLowered.client.Usable := by
  have hload := load_sampleFiles _ List.mem_cons_self
  have hboth := (checked sampleLowered).2 Format.read _ _ _ hload
  exact ⟨hload, (checked sampleLowered).1.mpr hboth.1, hboth.2⟩

/-- **A configuration that is loaded is not always usable**: each of these files passes the check,
and leaves a client that loses its connection at every listing that has an entry. -/
theorem not_always_usable :
    ¬ (∀ c : Config, c.validate = .ok () → c.Positive)
      ∧ ¬ ∀ (home : Option String) (path : String) (content : Except IoError String) (c : Config),
        load home path content = .ok c → ¬ c.client.DropsListings := by
  have hchecked : sampleLowered.Checked :=
    fault?_eq_none_iff_checked.mp (loadBy_ok (load_sampleFiles _ List.mem_cons_self))
  constructor
  · intro hall
    have hpositive := (hall sampleLowered (validate_eq_ok_iff.mpr hchecked)).maxEntries
    exact absurd hpositive (by decide)
  · intro hall
    refine hall _ _ _ _ (load_sampleFiles _ List.mem_cons_self) ?_
    exact (ClientConfig.dropsListings_iff hchecked.clientMaxPath).mpr rfl

end Config
end UnionFS
