import Axionvera.Lib.Trim
import Axionvera.Node.ChainParams

/-! # The administrators' token

`AdminAuthInterceptor` of `grpc/server.rs`, which every request of the two gRPC
services passes. A request on one of four paths needs a token, the SHA-256 sum of
which is configured. The token is looked for in three headers, and blanks and
letter case are read leniently. `Presents` writes
the headers that carry a token as texts put together; that is what
`extract_admin_token` finds (`extractAdminToken_eq_some`), and so who is let in
(`admitted_iff`). -/
namespace Axionvera.Node.AdminToken
open Axionvera.Lib.Fallible Axionvera.Lib.Trim
open Axionvera.Node.ChainParams

/-! ## Headers -/

/-- What the interceptor uses of other packages: the SHA-256 sum of a text in
hexadecimal digits, and `HeaderValue::to_str`, which gives the text of a header's
value if it has one. -/
structure Packages where
  sha256Hex : String → String
  toStr : List UInt8 → Option String

/-- The headers of a request, each value in bytes. -/
abbrev MetadataMap := List (String × List UInt8)

/-- `metadata.get(key).and_then(|value| value.to_str().ok())`; the first value
of a key counts. -/
def text (pkg : Packages) (metadata : MetadataMap) (key : String) : Option String :=
  (metadata.lookup key).bind pkg.toStr

/-- `str::trim`. -/
def trimmed (s : String) : String := String.ofList (trim isWhitespace s.toList)

/-- `eq_ignore_ascii_case`. -/
def eqIgnoreAsciiCase (a b : List Char) : Bool := a.map Char.toLower == b.map Char.toLower

/-! ## The interceptor -/

/-- A header's text without the blanks around it, if there is anything else. -/
def nonBlank (raw : String) : Option String :=
  if trimmed raw ≠ "" then some (trimmed raw) else none

/-- The token of the `authorization` header. -/
def bearerToken (rawAuthHeader : String) : Option String :=
  match splitOnce ' ' (trimmed rawAuthHeader).toList with
  | some (scheme, token) =>
    if eqIgnoreAsciiCase scheme "bearer".toList then nonBlank (String.ofList token) else none
  | none => none

def extractAdminToken (pkg : Packages) (metadata : MetadataMap) : Option String :=
  ((text pkg metadata "authorization").bind bearerToken).or <|
    ["x-api-key", "api-key"].findSome? fun key => (text pkg metadata key).bind nonBlank

inductive Code where
  | unauthenticated
  | invalidArgument
  | permissionDenied
  | internal
  deriving DecidableEq

structure Status where
  code : Code
  message : String
  deriving DecidableEq

def adminGrpcPaths : List String :=
  [ "/axionvera.network.NetworkService/DistributeRewards",
    "/axionvera.network.NetworkService/ParameterUpgrade",
    "/axionvera.gateway.GatewayService/DistributeRewards",
    "/axionvera.gateway.GatewayService/ParameterUpgrade" ]

def isAdminGrpcRoute (path : String) : Bool := adminGrpcPaths.contains path

structure AdminAuthInterceptor where
  expectedTokenHash : Option String

namespace AdminAuthInterceptor

def new (expectedTokenHash : Option String) : AdminAuthInterceptor :=
  ⟨(expectedTokenHash.map normalizeId).filter fun hash => hash ≠ ""⟩

def call (pkg : Packages) (auth : AdminAuthInterceptor) (path : String)
    (metadata : MetadataMap) : Except Status Unit :=
  if isAdminGrpcRoute path then
    match auth.expectedTokenHash with
    | none => .error ⟨.unauthenticated, "admin authentication is not configured"⟩
    | some expectedHash =>
      match extractAdminToken pkg metadata with
      | none => .error ⟨.unauthenticated, "missing authorization token"⟩
      | some providedToken =>
        failIf (pkg.sha256Hex providedToken ≠ expectedHash)
          ⟨.unauthenticated, "invalid authorization token"⟩
  else .ok ()

end AdminAuthInterceptor

/-! ## Headers that carry a token -/

/-- What can be sent as a token: a text with no blanks at its ends. -/
def Token (t : String) : Prop := Core isWhitespace t.toList

/-- A key between blanks. -/
def Key (raw t : String) : Prop := Padded isWhitespace raw.toList t.toList

/-- The word "bearer" in any letter case, a space and a token, with blanks before,
between and after. -/
def Bearer (raw t : String) : Prop :=
  ∃ scheme between, eqIgnoreAsciiCase scheme "bearer".toList = true ∧
    (∀ c ∈ between, isWhitespace c = true) ∧
    Padded isWhitespace raw.toList (scheme ++ ' ' :: (between ++ t.toList))

/-- The headers carry a token. The `authorization` header comes first, and
`x-api-key` before `api-key`. -/
inductive Presents (pkg : Packages) (metadata : MetadataMap) (t : String) : Prop
  | bearer {raw : String} (htext : text pkg metadata "authorization" = some raw) (h : Bearer raw t)
  | xApiKey {raw : String}
      (hno : ∀ raw', text pkg metadata "authorization" = some raw' →
        ∀ t', Token t' → ¬ Bearer raw' t')
      (htext : text pkg metadata "x-api-key" = some raw) (h : Key raw t)
  | apiKey {raw : String}
      (hno : ∀ raw', text pkg metadata "authorization" = some raw' →
        ∀ t', Token t' → ¬ Bearer raw' t')
      (hno' : ∀ raw', text pkg metadata "x-api-key" = some raw' → ∀ t', Token t' → ¬ Key raw' t')
      (htext : text pkg metadata "api-key" = some raw) (h : Key raw t)

theorem trimmed_toList (s : String) : (trimmed s).toList = trim isWhitespace s.toList :=
  String.toList_ofList

theorem ne_empty_iff {s : String} : s ≠ "" ↔ s.toList ≠ [] := by
  rw [ne_eq, ne_eq, ← String.toList_inj]
  rfl

theorem nonBlank_eq_some {raw t : String} : nonBlank raw = some t ↔ Token t ∧ Key raw t := by
  rw [Token, Key, ← trim_eq_iff, ← trimmed_toList, String.toList_inj, ← ne_empty_iff, nonBlank]
  split
  · rename_i hne
    rw [Option.some.injEq]
    exact ⟨fun h => ⟨h, h ▸ hne⟩, And.left⟩
  · rename_i heq
    simp only [reduceCtorEq, false_iff, not_and]
    rintro rfl hne
    exact heq hne

/-- No blank has a letter case. -/
theorem toLower_of_isWhitespace {c : Char} (h : isWhitespace c = true) : c.toLower = c := by
  simp only [isWhitespace, Bool.or_eq_true, Bool.and_eq_true, decide_eq_true_eq, beq_iff_eq] at h
  refine dif_neg ?_
  simp only [ge_iff_le, UInt32.le_iff_toNat_le]
  change ¬ (65 ≤ c.toNat ∧ c.toNat ≤ 90)
  omega

theorem not_isWhitespace_of_mem {scheme : List Char}
    (h : eqIgnoreAsciiCase scheme "bearer".toList = true) {c : Char} (hc : c ∈ scheme) :
    isWhitespace c = false := by
  have hmap : scheme.map Char.toLower = "bearer".toList := by simpa [eqIgnoreAsciiCase] using h
  have hmem : c.toLower ∈ "bearer".toList := hmap ▸ List.mem_map_of_mem hc
  have hletters : "bearer".toList.any isWhitespace = false := by decide
  by_contra hblank
  rw [Bool.not_eq_false] at hblank
  rw [toLower_of_isWhitespace hblank] at hmem
  exact List.any_eq_false.mp hletters c hmem hblank

/-- A bearer header without the blanks around it. -/
theorem core_bearer {scheme between : List Char} {t : String}
    (hscheme : eqIgnoreAsciiCase scheme "bearer".toList = true) (ht : Token t) :
    Core isWhitespace (scheme ++ ' ' :: (between ++ t.toList)) := by
  have hne : scheme ≠ [] := by
    rintro rfl
    exact absurd hscheme (by decide)
  refine ⟨by simp, ?_, ?_⟩
  · rw [List.head?_append_of_ne_nil _ hne]
    exact fun c hc => not_isWhitespace_of_mem hscheme (List.mem_of_mem_head? hc)
  · have hassoc : scheme ++ ' ' :: (between ++ t.toList) =
        (scheme ++ ' ' :: between) ++ t.toList := by simp
    rw [hassoc, List.getLast?_append_of_ne_nil _ ht.nonempty]
    exact ht.last

theorem bearerToken_eq_some {raw t : String} :
    bearerToken raw = some t ↔ Token t ∧ Bearer raw t := by
  constructor
  · intro h
    rw [bearerToken] at h
    split at h
    case h_2 => cases h
    case h_1 scheme token hsplit =>
      split at h
      case isFalse => cases h
      case isTrue hscheme =>
        rw [splitOnce_eq_some, trimmed_toList] at hsplit
        obtain ⟨ht, between, after, htoken, hbetween, hafter⟩ := nonBlank_eq_some.mp h
        obtain ⟨a, b, hraw, ha, hb⟩ := padded_trim isWhitespace raw.toList
        rw [String.toList_ofList] at htoken
        refine ⟨ht, scheme, between, hscheme, hbetween, a, after ++ b, ?_, ha, ?_⟩
        · rw [hraw, hsplit.1, htoken]
          simp
        · intro c hc
          rcases List.mem_append.mp hc with hc | hc
          · exact hafter c hc
          · exact hb c hc
  · rintro ⟨ht, scheme, between, hscheme, hbetween, hpad⟩
    have htrim : (trimmed raw).toList = scheme ++ ' ' :: (between ++ t.toList) := by
      rw [trimmed_toList]
      exact trim_of_padded (core_bearer hscheme ht) hpad
    have hsplit : splitOnce ' ' (trimmed raw).toList = some (scheme, between ++ t.toList) := by
      refine splitOnce_eq_some.mpr ⟨htrim, ?_⟩
      intro hmem
      exact absurd (not_isWhitespace_of_mem hscheme hmem) (by decide)
    have hkey : Key (String.ofList (between ++ t.toList)) t :=
      ⟨between, [], by simp, hbetween, by simp⟩
    simp only [bearerToken, hsplit, hscheme, if_true]
    exact nonBlank_eq_some.mpr ⟨ht, hkey⟩

section Lookup
variable {pkg : Packages} {metadata : MetadataMap} {key t : String} {read : String → Option String}
variable {P : String → String → Prop}

theorem find_eq_some (hread : ∀ raw t, read raw = some t ↔ Token t ∧ P raw t) :
    (text pkg metadata key).bind read = some t ↔
      ∃ raw, text pkg metadata key = some raw ∧ Token t ∧ P raw t := by
  simp only [Option.bind_eq_some_iff, hread]

theorem find_eq_none (hread : ∀ raw t, read raw = some t ↔ Token t ∧ P raw t) :
    (text pkg metadata key).bind read = none ↔
      ∀ raw, text pkg metadata key = some raw → ∀ t, Token t → ¬ P raw t := by
  simp only [Option.eq_none_iff_forall_ne_some, ne_eq, find_eq_some hread]
  exact ⟨fun h raw htext t ht hP => h t ⟨raw, htext, ht, hP⟩,
    fun h t ⟨raw, htext, ht, hP⟩ => h raw htext t ht hP⟩

end Lookup

/-- What the code finds is what the headers carry. -/
theorem extractAdminToken_eq_some {pkg : Packages} {metadata : MetadataMap} {t : String} :
    extractAdminToken pkg metadata = some t ↔ Token t ∧ Presents pkg metadata t := by
  have hbearer := fun raw t => @bearerToken_eq_some raw t
  have hkey := fun raw t => @nonBlank_eq_some raw t
  have hkeys :
      (["x-api-key", "api-key"].findSome? fun key => (text pkg metadata key).bind nonBlank) =
        ((text pkg metadata "x-api-key").bind nonBlank).or
          ((text pkg metadata "api-key").bind nonBlank) := by
    simp only [List.findSome?_cons, List.findSome?_nil]
    cases (text pkg metadata "x-api-key").bind nonBlank <;>
      cases (text pkg metadata "api-key").bind nonBlank <;> rfl
  rw [extractAdminToken, hkeys]
  simp only [Option.or_eq_some_iff, find_eq_some hbearer, find_eq_some hkey, find_eq_none hbearer,
    find_eq_none hkey]
  constructor
  · rintro (⟨raw, htext, ht, h⟩ | ⟨hno, ⟨raw, htext, ht, h⟩ | ⟨hno', raw, htext, ht, h⟩⟩)
    · exact ⟨ht, .bearer htext h⟩
    · exact ⟨ht, .xApiKey hno htext h⟩
    · exact ⟨ht, .apiKey hno hno' htext h⟩
  · rintro ⟨ht, h⟩
    cases h with
    | bearer htext h => exact .inl ⟨_, htext, ht, h⟩
    | xApiKey hno htext h => exact .inr ⟨hno, .inl ⟨_, htext, ht, h⟩⟩
    | apiKey hno hno' htext h => exact .inr ⟨hno, .inr ⟨hno', _, htext, ht, h⟩⟩

/-! ## Who is let in -/

namespace AdminAuthInterceptor
variable {pkg : Packages} {auth : AdminAuthInterceptor} {path : String}
variable {metadata : MetadataMap}

/-- The headers carry a token with the expected sum. -/
def Authentic (pkg : Packages) (auth : AdminAuthInterceptor)
    (metadata : MetadataMap) : Prop :=
  ∃ t, Token t ∧ Presents pkg metadata t ∧ auth.expectedTokenHash = some (pkg.sha256Hex t)

theorem authentic_iff : auth.Authentic pkg metadata ↔
    ∃ t, extractAdminToken pkg metadata = some t ∧
      auth.expectedTokenHash = some (pkg.sha256Hex t) := by
  simp only [Authentic, ← and_assoc, ← extractAdminToken_eq_some]

instance : Decidable (auth.Authentic pkg metadata) :=
  decidable_of_iff ((extractAdminToken pkg metadata).any fun t =>
    auth.expectedTokenHash == some (pkg.sha256Hex t)) (by
      rw [authentic_iff, Option.any_eq_true]
      simp only [beq_iff_eq])

theorem call_eq_ok : auth.call pkg path metadata = .ok () ↔
    (path ∈ adminGrpcPaths → Authentic pkg auth metadata) := by
  rw [call]
  split
  · rename_i hroute
    have hmem : path ∈ adminGrpcPaths := by simpa [isAdminGrpcRoute] using hroute
    simp only [hmem, true_implies, authentic_iff]
    cases auth.expectedTokenHash with
    | none => simp
    | some expected =>
      cases extractAdminToken pkg metadata with
      | none => simp
      | some token =>
        simp only [failIf_eq_ok, not_not, Option.some.injEq, exists_eq_left']
        exact eq_comm
  · rename_i hroute
    have hmem : path ∉ adminGrpcPaths := by simpa [isAdminGrpcRoute] using hroute
    simp [hmem]

theorem new_expectedTokenHash {configured : Option String} {hash : String} :
    (new configured).expectedTokenHash = some hash ↔
      ∃ raw, configured = some raw ∧ normalizeId raw = hash ∧ hash ≠ "" := by
  cases configured with
  | none => simp [new]
  | some raw =>
    simp only [new, Option.map_some, Option.filter_eq_some_iff, Option.some.injEq,
      decide_eq_true_eq, exists_eq_left']

/-- Exactly these requests pass: those on other paths and those whose headers
carry a token the sum of which is configured, in whatever letter case and with
whatever blanks around it. If nothing is configured, no token helps. -/
theorem admitted_iff (pkg : Packages) (configured : Option String) (path : String)
    (metadata : MetadataMap) :
    (new configured).call pkg path metadata = .ok () ↔
      (path ∈ adminGrpcPaths → ∃ raw t, configured = some raw ∧ Token t ∧ Presents pkg metadata t ∧
        normalizeId raw = pkg.sha256Hex t ∧ pkg.sha256Hex t ≠ "") := by
  simp only [call_eq_ok, Authentic, new_expectedTokenHash]
  refine imp_congr_right fun _ => ?_
  constructor
  · rintro ⟨t, ht, hpresents, raw, hraw, hsum, hne⟩
    exact ⟨raw, t, hraw, ht, hpresents, hsum, hne⟩
  · rintro ⟨raw, t, hraw, ht, hpresents, hsum, hne⟩
    exact ⟨t, ht, hpresents, raw, hraw, hsum, hne⟩

end AdminAuthInterceptor
end Axionvera.Node.AdminToken
