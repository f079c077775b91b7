import ImageBuild.Proofs.Text.Base64
import ImageBuild.Proofs.Text.Decode
import ImageBuild.Proofs.Text.Pieces
import ImageBuild.Registry.Store
/-!
# Pairs of user name and password

An entry of a credential file holds a pair as one text in Base64.  A user name without a colon and any password come
back from the text that is written for them, and each pair that is read was written in this one way.  What is left is
the text of something without a colon, which is no pair, and what is no text in Base64 at all.
-/

namespace ImageBuild.Registry

open Text

/-! ## Writing a text in Base64 -/

theorem toNat_symbol_lt (v : Nat) : (Base64.symbol v).toNat < 0x80 := by
  rw [Base64.symbol]
  split_ifs <;> simp <;> omega

theorem toNat_lt_of_mem_encode {bytes : List UInt8} :
    ∀ b ∈ Base64.encode bytes, b.toNat < 0x80 := by
  fun_induction Base64.encode bytes with
  | case1 => simp
  | case2 => simp [toNat_symbol_lt, Base64.pad]
  | case3 => simp [toNat_symbol_lt, Base64.pad]
  | case4 a b c rest n ih => simpa [toNat_symbol_lt] using ih

/-- The text that stands for `s` in Base64. -/
def written (s : String) : String :=
  String.ofList ((Base64.encode (Utf8.ofString s)).map fun b => Char.ofNat b.toNat)

theorem encode_map_ofNat {bytes : List UInt8} (h : ∀ b ∈ bytes, b.toNat < 0x80) :
    Utf8.encode (bytes.map fun b => Char.ofNat b.toNat) = bytes := by
  induction bytes with
  | nil => rfl
  | cons b bytes ih =>
      obtain ⟨hb, hbytes⟩ := List.forall_mem_cons.1 h
      have hvalue : (Char.ofNat b.toNat).toNat = b.toNat := Utf8.toNat_ofNat_of_valid (by omega)
      have hchar := Utf8.encodeChar_one (a := b) (by omega) hvalue
      rw [List.map_cons, Utf8.encode, List.flatMap_cons, hchar, ← Utf8.encode, ih hbytes]
      rfl

theorem ofString_written (s : String) :
    Utf8.ofString (written s) = Base64.encode (Utf8.ofString s) := by
  rw [written, Utf8.ofString, String.toList_ofList, encode_map_ofNat toNat_lt_of_mem_encode]

theorem eq_written_iff {encoded s : String} :
    encoded = written s ↔ Utf8.ofString encoded = Base64.encode (Utf8.ofString s) := by
  rw [← ofString_written]
  exact Utf8.ofString_injective.eq_iff.symm

/-! ## Reading it -/

theorem splitPair_eq_none_iff {pair : List Char} : splitPair pair = none ↔ ':' ∉ pair := by
  rw [splitPair, Option.map_eq_none_iff, splitOnce_eq_none_iff]

theorem splitPair_eq_some_iff {pair : String} {secret : Secret} :
    splitPair pair.toList = some secret ↔
      ∃ username password, ':' ∉ username.toList ∧ pair = username ++ ":" ++ password ∧
        secret = .password username password := by
  rw [splitPair, Option.map_eq_some_iff]
  constructor
  · rintro ⟨⟨username, password⟩, hsplit, rfl⟩
    obtain ⟨hpair, hcolon⟩ := splitOnce_eq_some_iff.1 hsplit
    refine ⟨String.ofList username, String.ofList password, by rwa [String.toList_ofList], ?_, rfl⟩
    rw [← String.toList_inj, hpair]
    simp
  · rintro ⟨username, password, hcolon, rfl, rfl⟩
    refine ⟨(username.toList, password.toList), splitOnce_eq_some_iff.2 ⟨by simp, hcolon⟩, ?_⟩
    simp only [String.ofList_toList]

theorem decodePair_written (s : String) : decodePair (written s) = .ok (splitPair s.toList) := by
  have hbytes := Base64.decode_eq_ok_iff.2 (ofString_written s)
  have hpair := Utf8.decode_eq_ok_iff.2 (Utf8.ofString.eq_1 s)
  rw [decodePair, hbytes]
  simp only [hpair]

theorem decodePair_eq_ok_iff {encoded : String} {secret : Option Secret} :
    decodePair encoded = .ok secret ↔ ∃ s, encoded = written s ∧ splitPair s.toList = secret := by
  constructor
  · intro h
    rw [decodePair] at h
    split at h
    · cases h
    rename_i bytes hbytes
    split at h
    · cases h
    rename_i pair hpair
    have hbytes := Base64.decode_eq_ok_iff.1 hbytes
    rw [Utf8.decode_eq_ok_iff.1 hpair, ← String.toList_ofList (l := pair)] at hbytes
    refine ⟨String.ofList pair, eq_written_iff.2 hbytes, ?_⟩
    rw [String.toList_ofList]
    exact Except.ok.inj h
  · rintro ⟨s, rfl, rfl⟩
    exact decodePair_written s

theorem exists_error_iff {ε α : Type} {r : Except ε α} : (∃ e, r = .error e) ↔ ∀ v, r ≠ .ok v := by
  cases r <;> simp

theorem exists_decodePair_encoding_iff {encoded : String} :
    (∃ f, decodePair encoded = .error (.encoding f)) ↔
      ∀ bytes, Utf8.ofString encoded ≠ Base64.encode bytes := by
  have hbytes : (∃ f, decodePair encoded = .error (.encoding f)) ↔
      ∃ f, Base64.decode (Utf8.ofString encoded) = .error f := by
    rw [decodePair]
    cases Base64.decode (Utf8.ofString encoded) with
    | error f => simp
    | ok bytes => cases hpair : Utf8.decode bytes <;> simp [hpair]
  simp only [hbytes, exists_error_iff, ne_eq, Base64.decode_eq_ok_iff]

theorem exists_decodePair_notText_iff {encoded : String} :
    (∃ f, decodePair encoded = .error (.notText f)) ↔
      ∃ bytes, Utf8.ofString encoded = Base64.encode bytes ∧ ∀ s, bytes ≠ Utf8.ofString s := by
  have htext (bytes : List UInt8) :
      (∃ f, Utf8.decode bytes = .error f) ↔ ∀ s, bytes ≠ Utf8.ofString s := by
    rw [exists_error_iff]
    simp only [ne_eq, Utf8.decode_eq_ok_iff]
    exact ⟨fun h s => h s.toList, fun h cs hcs => h (String.ofList cs) (by
      rw [hcs, Utf8.ofString, String.toList_ofList])⟩
  simp only [← htext, ← Base64.decode_eq_ok_iff]
  rw [decodePair]
  cases Base64.decode (Utf8.ofString encoded) with
  | error f => simp
  | ok bytes => cases hpair : Utf8.decode bytes <;> simp [hpair]

/-! ## Entries -/

section

variable {a : StoredAuth} {key encoded token : String}

theorem secret_of_token (htoken : token ≠ "") (h : a.identityToken = some token) :
    a.secret = .ok (some (.identityToken token)) := by
  rw [StoredAuth.secret, h, Option.filter_some_pos (by simpa using htoken)]

theorem secret_of_auth (htoken : ∀ token, a.identityToken = some token → token = "")
    (hauth : a.auth = some encoded) : a.secret = decodePair encoded := by
  have hnone : a.identityToken.filter (· ≠ "") = none := by
    rw [Option.filter_eq_none_iff]
    simpa using htoken
  rw [StoredAuth.secret, hnone, hauth]
  by_cases hempty : encoded = ""
  · subst hempty
    exact (decodePair_written "").symm
  · rw [Option.filter_some_pos (by simpa using hempty)]

theorem credentials_eq_ok_iff {c : Option Credentials} :
    a.credentials key = .ok c ↔
      ∃ secret, a.secret = .ok secret ∧ secret.map (⟨·, canonical key⟩) = c := by
  rw [StoredAuth.credentials]
  cases a.secret <;> simp

theorem credentials_eq_error_iff {e : BuildError} :
    a.credentials key = .error e ↔ ∃ f, a.secret = .error f ∧ .authFailed key f.message = e := by
  rw [StoredAuth.credentials]
  cases a.secret <;> simp

/-- The wording tells the two kinds of faults apart. -/
theorem message_encoding_ne (f : Base64.Fault) (g : Utf8.Fault) :
    (AuthFault.encoding f).message ≠ (AuthFault.notText g).message := by
  change "Failed to decode auth: " ++ f.message ≠ "Invalid UTF-8 in auth: " ++ g.message
  intro h
  have hfirst := congrArg (fun s : String => s.toList.head?) h
  simp only [String.toList_append, List.head?_append] at hfirst
  have hencoding : "Failed to decode auth: ".toList.head? = some 'F' := by decide
  have htext : "Invalid UTF-8 in auth: ".toList.head? = some 'I' := by decide
  rw [hencoding, htext] at hfirst
  exact absurd (Option.some.inj hfirst) (by decide)

theorem exists_of_message_encoding {f : Base64.Fault} {g : AuthFault}
    (h : g.message = (AuthFault.encoding f).message) : ∃ f', g = .encoding f' := by
  cases g with
  | encoding f' => exact ⟨f', rfl⟩
  | notText f' => exact absurd h.symm (message_encoding_ne f f')

theorem exists_of_message_notText {f : Utf8.Fault} {g : AuthFault}
    (h : g.message = (AuthFault.notText f).message) : ∃ f', g = .notText f' := by
  cases g with
  | encoding f' => exact absurd h (message_encoding_ne f' f)
  | notText f' => exact ⟨f', rfl⟩

/-- A kind of faults that its wording tells from the others is found in what an entry gives. -/
theorem exists_credentials_error_iff {α : Type} {kind : α → AuthFault}
    (hkind : ∀ {f g}, g.message = (kind f).message → ∃ f', g = kind f') (h : a.secret = decodePair encoded) :
    (∃ f, a.credentials key = .error (.authFailed key (kind f).message)) ↔
      ∃ f, decodePair encoded = .error (kind f) := by
  simp only [credentials_eq_error_iff, h]
  constructor
  · rintro ⟨f, g, hg, hmessage⟩
    obtain ⟨f', rfl⟩ := hkind (BuildError.authFailed.inj hmessage).2
    exact ⟨f', hg⟩
  · rintro ⟨f, hf⟩
    exact ⟨f, kind f, hf, rfl⟩

theorem credentials_eq_some_iff (h : a.secret = decodePair encoded) {c : Credentials} :
    a.credentials key = .ok (some c) ↔
      ∃ username password, ':' ∉ username.toList ∧ encoded = written (username ++ ":" ++ password) ∧
        c = ⟨.password username password, canonical key⟩ := by
  rw [credentials_eq_ok_iff, h]
  constructor
  · rintro ⟨secret, hsecret, hc⟩
    obtain ⟨s, rfl, rfl⟩ := decodePair_eq_ok_iff.1 hsecret
    obtain ⟨secret, hsplit, rfl⟩ := Option.map_eq_some_iff.1 hc
    obtain ⟨username, password, hcolon, rfl, rfl⟩ := splitPair_eq_some_iff.1 hsplit
    exact ⟨username, password, hcolon, rfl, rfl⟩
  · rintro ⟨username, password, hcolon, rfl, rfl⟩
    refine ⟨some (.password username password), ?_, rfl⟩
    rw [decodePair_written, splitPair_eq_some_iff.2 ⟨username, password, hcolon, rfl, rfl⟩]

theorem credentials_eq_none_iff (h : a.secret = decodePair encoded) :
    a.credentials key = .ok none ↔ ∃ s, ':' ∉ s.toList ∧ encoded = written s := by
  rw [credentials_eq_ok_iff, h]
  simp only [Option.map_eq_none_iff, exists_eq_right, decodePair_eq_ok_iff, splitPair_eq_none_iff]
  exact exists_congr fun s => and_comm

end

/-- A token goes before everything else.  Without one, an entry gives a user name without a colon and a password just
if its text is the one that is written for them, and it gives nothing just if its text is written for something without
a colon; the two faults are those of a text that is written for no bytes, and of one that is written for bytes that
are no text. -/
theorem credentials_read_back (a : StoredAuth) (key : String) :
    (∀ token, token ≠ "" → a.identityToken = some token →
        a.credentials key = .ok (some ⟨.identityToken token, canonical key⟩)) ∧
      ((∀ token, a.identityToken = some token → token = "") → ∀ encoded, a.auth = some encoded →
        (∀ c, a.credentials key = .ok (some c) ↔
          ∃ username password, ':' ∉ username.toList ∧
            encoded = written (username ++ ":" ++ password) ∧
              c = ⟨.password username password, canonical key⟩) ∧
        (a.credentials key = .ok none ↔ ∃ s, ':' ∉ s.toList ∧ encoded = written s) ∧
        ((∃ f, a.credentials key = .error (.authFailed key (AuthFault.encoding f).message)) ↔
          ∀ bytes, Utf8.ofString encoded ≠ Base64.encode bytes) ∧
        ((∃ f, a.credentials key = .error (.authFailed key (AuthFault.notText f).message)) ↔
          ∃ bytes, Utf8.ofString encoded = Base64.encode bytes ∧ ∀ s, bytes ≠ Utf8.ofString s)) := by
  refine ⟨fun token hne htoken => ?_, fun htoken encoded hauth => ?_⟩
  · exact credentials_eq_ok_iff.2 ⟨_, secret_of_token hne htoken, rfl⟩
  · have hsecret := secret_of_auth htoken hauth
    exact ⟨fun c => credentials_eq_some_iff hsecret, credentials_eq_none_iff hsecret,
      (exists_credentials_error_iff exists_of_message_encoding hsecret).trans exists_decodePair_encoding_iff,
      (exists_credentials_error_iff exists_of_message_notText hsecret).trans exists_decodePair_notText_iff⟩

/-- The colons of a password are its own, and an empty token is none. -/
theorem credentials_read_back_colons :
    (StoredAuth.mk (some "YTo6Yg==") (some "")).credentials "https://ghcr.io/" =
      .ok (some ⟨.password "a" ":b", "ghcr.io"⟩) := by
  have hpair := ((credentials_read_back (StoredAuth.mk (some "YTo6Yg==") (some "")) "https://ghcr.io/").2
    (by simp) "YTo6Yg==" rfl).1
  exact (hpair _).2 ⟨"a", ":b", by decide, by decide, by cbv⟩

end ImageBuild.Registry
