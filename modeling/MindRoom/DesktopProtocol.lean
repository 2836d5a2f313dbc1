import MindRoom.DesktopJournal
import MindRoom.JsonCuts

/-! # The desktop wire protocol

`desktop/protocol.py`: the contents of commands and responses, and the strict parsers that read
them. A journal file holds the content of each recorded response and is read back through the same
parser.
-/

namespace MindRoom

open JsonText

/-! ## Reading one field -/

def objectMapping (raw : Option Json) (label : String) : Except String Dict :=
  match raw with
  | some (.obj content) => .ok content
  | _ => .error (label ++ " must be an object with string keys.")

def requiredStr (content : Dict) (key label : String) : Except String String :=
  match content.str? key with
  | some value =>
    if Required value then .ok value
    else .error (label ++ "." ++ key ++ " must be a non-empty string.")
  | none => .error (label ++ "." ++ key ++ " must be a non-empty string.")

def requiredInt (content : Dict) (key label : String) : Except String Int :=
  match content.num? key with
  | some value => .ok value
  | none => .error (label ++ "." ++ key ++ " must be an integer.")

def boundedStr (content : Dict) (key label : String) (maxLength : Nat) : Except String String := do
  let value ← requiredStr content key label
  if value.length > maxLength then
    .error (label ++ "." ++ key ++ " must not exceed " ++ toString maxLength ++ " characters.")
  else .ok value

def boundedIdentifier (content : Dict) (key label : String) : Except String String :=
  boundedStr content key label 128

def desktopProtocolVersion : Int := 2

def requireProtocolVersion (content : Dict) : Except String Unit := do
  let version ← requiredInt content "v" "payload"
  if version ≠ desktopProtocolVersion then
    .error ("Unsupported desktop protocol version: " ++ toString version ++ ".")
  else .ok ()

/-! ## Commands -/

/-- The bytes of one character in a JSON string that is not limited to ASCII. -/
def encodedCharSize (c : Char) : Nat :=
  if c = '\x22' ∨ c = '\x5c' ∨ c = '\n' ∨ c = '\r' ∨ c = '\t' ∨ c = '\x08' ∨ c = '\x0c' then 2
  else if c.toNat < 32 then 6
  else c.utf8Size

def encodedStrSize (s : String) : Nat := 2 + (s.toList.map encodedCharSize).sum

mutual

/-- The bytes of a value's compact JSON text. -/
def encodedSize : Json → Nat
  | .null => 4
  | .bool true => 4
  | .bool false => 5
  | .num n => (toString n).length
  | .str s => encodedStrSize s
  | .arr [] => 2
  | .arr (item :: items) => 1 + encodedItemsSize (item :: items)
  | .obj [] => 2
  | .obj (member :: members) => 1 + encodedMembersSize (member :: members)

/-- Every item with the comma or bracket after it. -/
def encodedItemsSize : List Json → Nat
  | [] => 0
  | item :: items => encodedSize item + 1 + encodedItemsSize items

def encodedMembersSize : List (String × Json) → Nat
  | [] => 0
  | (k, v) :: members => encodedStrSize k + 1 + encodedSize v + 1 + encodedMembersSize members

end

def maxCommandTtlMs : Int := 120000

def maxCommandParametersBytes : Nat := 16 * 1024

def desktopActions : List DesktopAction :=
  [.status, .listApps, .launchApp, .getAppState, .screenshot, .clickElement, .setValue,
    .scrollElement, .performAction, .click, .typeText, .scroll, .keypress, .browserObserve,
    .browserControl]

namespace DesktopCommand

def toContent (command : DesktopCommand) : Dict :=
  [("v", .num desktopProtocolVersion), ("request_id", .str command.requestId),
    ("session_id", .str command.sessionId), ("sequence", .num command.sequence),
    ("issued_at_ms", .num command.issuedAtMs), ("expires_at_ms", .num command.expiresAtMs),
    ("action", .str command.action.value), ("requester_id", .str command.requesterId),
    ("agent_name", .str command.agentName), ("parameters", .obj command.parameters)]

def readAction (content : Dict) : Except String DesktopAction := do
  let name ← requiredStr content "action" "command"
  match desktopActions.find? (·.value = name) with
  | some action => .ok action
  | none => .error ("Unsupported desktop action: " ++ name ++ ".")

def fromContent (raw : Json) : Except String DesktopCommand := do
  let content ← objectMapping (some raw) "command"
  requireProtocolVersion content
  let action ← readAction content
  let issuedAtMs ← requiredInt content "issued_at_ms" "command"
  let expiresAtMs ← requiredInt content "expires_at_ms" "command"
  let sequence ← requiredInt content "sequence" "command"
  if sequence < 0 then
    .error "command.sequence must be non-negative."
  else if expiresAtMs ≤ issuedAtMs ∨ expiresAtMs - issuedAtMs > maxCommandTtlMs then
    .error ("Desktop command TTL must be between 1 and " ++ toString maxCommandTtlMs ++ " milliseconds.")
  else
    let parameters ← objectMapping (some ((content.get? "parameters").getD (.obj []))) "command.parameters"
    if encodedSize (.obj parameters) > maxCommandParametersBytes then
      .error ("command.parameters must not exceed " ++ toString maxCommandParametersBytes ++
        " encoded bytes.")
    else
      let requestId ← boundedIdentifier content "request_id" "command"
      let sessionId ← boundedIdentifier content "session_id" "command"
      let requesterId ← boundedStr content "requester_id" "command" 255
      let agentName ← boundedStr content "agent_name" "command" 128
      .ok { requestId, sessionId, sequence, issuedAtMs, expiresAtMs, action, requesterId, agentName, parameters }

end DesktopCommand

/-! ## Responses -/

def maxScreenshotBytes : Nat := 10 * 1024 * 1024

namespace EncryptedDesktopMedia

/-- Serialize using the Matrix encrypted-file shape. -/
def toContent (media : EncryptedDesktopMedia) : Dict :=
  [("url", .str media.url), ("key", .obj [("alg", .str "A256CTR"), ("ext", .bool true), ("k", .str media.key),
      ("key_ops", .arr [.str "encrypt", .str "decrypt"]), ("kty", .str "oct")]),
    ("iv", .str media.iv), ("hashes", .obj [("sha256", .str media.sha256)]), ("v", .str "v2"),
    ("mimetype", .str media.mimeType), ("size", .num media.size)]

def fromContent (raw : Json) : Except String EncryptedDesktopMedia := do
  let content ← objectMapping (some raw) "screenshot"
  let key ← objectMapping (content.get? "key") "screenshot.key"
  let hashes ← objectMapping (content.get? "hashes") "screenshot.hashes"
  if key.str? "alg" ≠ some "A256CTR" ∨ key.str? "kty" ≠ some "oct" ∨ key.get? "ext" ≠ some (.bool true) then
    .error "screenshot.key must describe an extractable A256CTR octet key."
  else
    let url ← requiredStr content "url" "screenshot"
    if ¬ url.startsWith "mxc://" then
      .error "screenshot.url must be an mxc:// URI."
    else
      let version ← requiredStr content "v" "screenshot"
      if version ≠ "v2" then
        .error "screenshot.v must be v2."
      else
        let size ← requiredInt content "size" "screenshot"
        if size ≤ 0 ∨ size > maxScreenshotBytes then
          .error ("screenshot.size must be between 1 and " ++ toString maxScreenshotBytes ++ ".")
        else
          let mimeType ← requiredStr content "mimetype" "screenshot"
          if ¬ (mimeType = "image/jpeg" ∨ mimeType = "image/png") then
            .error "screenshot.mimetype must be image/jpeg or image/png."
          else
            let k ← requiredStr key "k" "screenshot.key"
            let iv ← requiredStr content "iv" "screenshot"
            let sha256 ← requiredStr hashes "sha256" "screenshot.hashes"
            .ok ⟨url, k, iv, sha256, mimeType, size⟩

end EncryptedDesktopMedia

namespace DesktopResponse

/-- Serialize this response for Olm delivery, and for the journal. -/
def toContent (response : DesktopResponse) : Dict :=
  [("v", .num desktopProtocolVersion), ("request_id", .str response.requestId),
    ("session_id", .str response.sessionId), ("ok", .bool response.ok),
    ("result", .obj response.result)] ++
  (response.error.map fun error => ("error", Json.str error)).toList ++
  (response.screenshot.map fun media => ("screenshot", Json.obj media.toContent)).toList

/-- `content.get(key)`, where an absent member and a null are both `None`. -/
def present (content : Dict) (key : String) : Option Json :=
  (content.get? key).filter (· ≠ .null)

def readOk (content : Dict) : Except String Bool :=
  match content.get? "ok" with
  | some (.bool ok) => .ok ok
  | _ => .error "response.ok must be a boolean."

def readError (content : Dict) : Except String (Option String) :=
  match present content "error" with
  | none => .ok none
  | some (.str error) =>
    if Required error then .ok (some error)
    else .error "response.error must be a non-empty string when present."
  | some _ => .error "response.error must be a non-empty string when present."

def readScreenshot (content : Dict) : Except String (Option EncryptedDesktopMedia) :=
  match present content "screenshot" with
  | none => .ok none
  | some media => (EncryptedDesktopMedia.fromContent media).map some

def fromContent (raw : Json) : Except String DesktopResponse := do
  let content ← objectMapping (some raw) "response"
  requireProtocolVersion content
  let ok ← readOk content
  let error ← readError content
  if ok ∧ error ≠ none then
    .error "Successful desktop responses must not include an error."
  else if ¬ ok ∧ error = none then
    .error "Failed desktop responses must include an error."
  else if ¬ ok ∧ present content "screenshot" ≠ none then
    .error "Failed desktop responses must not include a screenshot."
  else
    let requestId ← boundedIdentifier content "request_id" "response"
    let sessionId ← boundedIdentifier content "session_id" "response"
    let result ← objectMapping (some ((content.get? "result").getD (.obj []))) "response.result"
    let screenshot ← readScreenshot content
    .ok { requestId, sessionId, ok, result, error, screenshot }

end DesktopResponse

/-! ## What the parsers read -/

/-- A text is required when it is not all blank. -/
theorem required_iff {text : String} : Required text ↔ ∃ c ∈ text.toList, inRanges spaceRanges c = false := by
  unfold Required strip
  rw [ne_eq, List.reverse_eq_nil_iff, List.dropWhile_eq_nil_iff, not_forall]
  constructor
  · rintro ⟨c, hc⟩
    rw [Classical.not_imp, List.mem_reverse, Bool.not_eq_true] at hc
    exact ⟨c, (List.dropWhile_sublist _).subset hc.1, hc.2⟩
  · rintro ⟨c, hmem, hc⟩
    refine ⟨c, ?_⟩
    rw [Classical.not_imp, List.mem_reverse, Bool.not_eq_true]
    refine ⟨?_, hc⟩
    rw [← List.takeWhile_append_dropWhile (p := inRanges spaceRanges) (l := text.toList), List.mem_append] at hmem
    rcases hmem with hspace | hmem
    · rw [List.mem_takeWhile_imp hspace] at hc
      cases hc
    · exact hmem

variable {content : Dict}

theorem objectMapping_eq_ok {raw : Option Json} {label : String} :
    objectMapping raw label = .ok content ↔ raw = some (.obj content) := by
  unfold objectMapping
  split
  · simp
  · next h =>
    constructor
    · rintro ⟨⟩
    · intro hraw
      exact absurd hraw (h content)

theorem requiredStr_eq_ok {key label value : String} :
    requiredStr content key label = .ok value ↔ content.str? key = some value ∧ Required value := by
  unfold requiredStr
  cases content.str? key with
  | none => simp
  | some text =>
    by_cases h : Required text
    · simp only [if_pos h, Except.ok.injEq, Option.some.injEq]
      constructor
      · rintro rfl
        exact ⟨rfl, h⟩
      · exact And.left
    · simp only [if_neg h, Option.some.injEq, reduceCtorEq, false_iff, not_and]
      rintro rfl
      exact h

theorem requiredInt_eq_ok {key label : String} {value : Int} :
    requiredInt content key label = .ok value ↔ content.num? key = some value := by
  unfold requiredInt
  cases content.num? key <;> simp

theorem boundedStr_eq_ok {key label value : String} {n : Nat} : boundedStr content key label n = .ok value ↔
      content.str? key = some value ∧ Required value ∧ value.length ≤ n := by
  unfold boundedStr
  rw [Transaction.except_bind_eq_ok]
  constructor
  · rintro ⟨text, htext, h⟩
    rw [requiredStr_eq_ok] at htext
    split at h
    · cases h
    · next hlen =>
      cases h
      exact ⟨htext.1, htext.2, by omega⟩
  · rintro ⟨htext, hrequired, hlen⟩
    refine ⟨value, requiredStr_eq_ok.mpr ⟨htext, hrequired⟩, ?_⟩
    rw [if_neg (by omega)]

theorem boundedIdentifier_eq_ok {key label value : String} : boundedIdentifier content key label = .ok value ↔
      content.str? key = some value ∧ BoundedIdentifier value := boundedStr_eq_ok

theorem requireProtocolVersion_eq_ok {u : Unit} :
    requireProtocolVersion content = .ok u ↔ content.num? "v" = some desktopProtocolVersion := by
  unfold requireProtocolVersion
  rw [Transaction.except_bind_eq_ok]
  constructor
  · rintro ⟨version, hversion, h⟩
    split at h
    · cases h
    · next hsame =>
      rw [requiredInt_eq_ok.mp hversion, not_not.mp hsame]
  · intro h
    refine ⟨_, requiredInt_eq_ok.mpr h, ?_⟩
    rw [if_neg (by simp)]

theorem required_of_mxc {url : String} (h : url.startsWith "mxc://") : Required url := by
  rw [String.startsWith_string_iff] at h
  refine required_iff.mpr ⟨'m', h.subset (by decide), by decide⟩

/-- What the parser of an encrypted file reads, and that it accepts nothing else. -/
theorem EncryptedDesktopMedia.fromContent_eq_ok {raw : Json} {media : EncryptedDesktopMedia} :
    fromContent raw = .ok media ↔ ∃ content key hashes, raw = .obj content ∧
      Dict.get? content "key" = some (.obj key) ∧ Dict.get? content "hashes" = some (.obj hashes) ∧
      Dict.str? key "alg" = some "A256CTR" ∧ Dict.str? key "kty" = some "oct" ∧
      Dict.get? key "ext" = some (.bool true) ∧ Dict.str? content "v" = some "v2" ∧
      Dict.str? content "url" = some media.url ∧ Dict.num? content "size" = some media.size ∧
      Dict.str? content "mimetype" = some media.mimeType ∧ Dict.str? key "k" = some media.key ∧
      Dict.str? content "iv" = some media.iv ∧ Dict.str? hashes "sha256" = some media.sha256 ∧
      media.Accepted := by
  unfold fromContent
  simp only [Transaction.except_bind_eq_ok, objectMapping_eq_ok, Option.some.injEq]
  constructor
  · rintro ⟨content, rfl, key, hkey, hashes, hhashes, h⟩
    split at h
    · cases h
    next hring =>
    rcases Transaction.except_bind_eq_ok.mp h with ⟨url, hurl, h⟩
    split at h
    · cases h
    next hmxc =>
    rcases Transaction.except_bind_eq_ok.mp h with ⟨version, hversion, h⟩
    split at h
    · cases h
    next hv2 =>
    rcases Transaction.except_bind_eq_ok.mp h with ⟨size, hsize, h⟩
    split at h
    · cases h
    next hbounds =>
    rcases Transaction.except_bind_eq_ok.mp h with ⟨mimeType, hmime, h⟩
    split at h
    · cases h
    next hkind =>
    rcases Transaction.except_bind_eq_ok.mp h with ⟨k, hk, h⟩
    rcases Transaction.except_bind_eq_ok.mp h with ⟨iv, hiv, h⟩
    rcases Transaction.except_bind_eq_ok.mp h with ⟨sha256, hsha, h⟩
    cases h
    rw [requiredStr_eq_ok] at hurl hversion hmime hk hiv hsha
    rw [requiredInt_eq_ok] at hsize
    obtain rfl := not_not.mp hv2
    simp only [not_or, not_not] at hring
    refine ⟨content, key, hashes, rfl, hkey, hhashes, hring.1, hring.2.1, hring.2.2, hversion.1, hurl.1,
      hsize, hmime.1, hk.1, hiv.1, hsha.1, ?_⟩
    refine ⟨not_not.mp hmxc, ?_, ?_, not_not.mp hkind, hk.2, hiv.2, hsha.2⟩
    · dsimp only
      omega
    · dsimp only
      rw [maxScreenshotBytes] at hbounds
      omega
  · rintro ⟨content, key, hashes, rfl, hkey, hhashes, halg, hkty, hext, hv, hurl, hsize, hmime, hk, hiv, hsha,
      hmxc, hpos, hmax, hkind, hkreq, hivreq, hshareq⟩
    refine ⟨content, rfl, key, hkey, hashes, hhashes, ?_⟩
    have hmimereq : Required media.mimeType := by
      rcases hkind with hkind | hkind
      · rw [hkind]
        decide
      · rw [hkind]
        decide
    rw [if_neg (by simp [halg, hkty, hext]), Transaction.except_bind_eq_ok]
    refine ⟨media.url, requiredStr_eq_ok.mpr ⟨hurl, required_of_mxc hmxc⟩, ?_⟩
    rw [if_neg (not_not.mpr hmxc), Transaction.except_bind_eq_ok]
    refine ⟨"v2", requiredStr_eq_ok.mpr ⟨hv, by decide⟩, ?_⟩
    rw [if_neg (by simp), Transaction.except_bind_eq_ok]
    refine ⟨media.size, requiredInt_eq_ok.mpr hsize, ?_⟩
    rw [if_neg (by rw [maxScreenshotBytes]; omega), Transaction.except_bind_eq_ok]
    refine ⟨media.mimeType, requiredStr_eq_ok.mpr ⟨hmime, hmimereq⟩, ?_⟩
    rw [if_neg (not_not.mpr hkind), Transaction.except_bind_eq_ok]
    refine ⟨media.key, requiredStr_eq_ok.mpr ⟨hk, hkreq⟩, ?_⟩
    rw [Transaction.except_bind_eq_ok]
    refine ⟨media.iv, requiredStr_eq_ok.mpr ⟨hiv, hivreq⟩, ?_⟩
    rw [Transaction.except_bind_eq_ok]
    exact ⟨media.sha256, requiredStr_eq_ok.mpr ⟨hsha, hshareq⟩, rfl⟩

theorem DesktopResponse.readOk_eq_ok {ok : Bool} :
    readOk content = .ok ok ↔ Dict.get? content "ok" = some (.bool ok) := by
  unfold readOk
  split
  · next flag hget => simp [hget]
  · next h =>
    constructor
    · rintro ⟨⟩
    · intro hget
      exact absurd hget (h ok)

theorem DesktopResponse.readError_eq_ok {error : Option String} : readError content = .ok error ↔
      present content "error" = error.map Json.str ∧ ∀ text ∈ error, Required text := by
  unfold readError
  cases hpresent : present content "error" with
  | none => cases error <;> simp
  | some v =>
    cases v with
    | str text =>
      by_cases h : Required text
      · cases error <;> simp [h]
        intro heq
        rwa [← heq]
      · cases error <;> simp [h]
        rintro rfl
        exact h
    | _ => cases error <;> simp

theorem DesktopResponse.readScreenshot_eq_ok {screenshot : Option EncryptedDesktopMedia} :
    readScreenshot content = .ok screenshot ↔ (present content "screenshot" = none ∧ screenshot = none) ∨
        ∃ raw media, present content "screenshot" = some raw ∧ screenshot = some media ∧
          EncryptedDesktopMedia.fromContent raw = .ok media := by
  unfold readScreenshot
  cases present content "screenshot" with
  | none => cases screenshot <;> simp
  | some raw =>
    cases hmedia : EncryptedDesktopMedia.fromContent raw with
    | error text => simp [Except.map, hmedia]
    | ok media => cases screenshot <;> simp [Except.map, hmedia, eq_comm]

/-- What the parser of a response reads, and that it accepts nothing else. -/
theorem DesktopResponse.fromContent_eq_ok {raw : Json} {response : DesktopResponse} :
    fromContent raw = .ok response ↔ ∃ content, raw = .obj content ∧
      Dict.num? content "v" = some desktopProtocolVersion ∧
      Dict.get? content "ok" = some (.bool response.ok) ∧
      present content "error" = response.error.map Json.str ∧
      Dict.str? content "request_id" = some response.requestId ∧
      Dict.str? content "session_id" = some response.sessionId ∧
      (Dict.get? content "result").getD (.obj []) = .obj response.result ∧
      readScreenshot content = .ok response.screenshot ∧ response.Accepted := by
  unfold fromContent
  simp only [Transaction.except_bind_eq_ok, objectMapping_eq_ok, Option.some.injEq,
    requireProtocolVersion_eq_ok, readOk_eq_ok, readError_eq_ok]
  constructor
  · rintro ⟨content, rfl, -, hversion, ok, hok, error, ⟨herror, htext⟩, h⟩
    split at h
    · cases h
    next hsuccess =>
    split at h
    · cases h
    next hfailed =>
    split at h
    · cases h
    next hplain =>
    simp only [Transaction.except_bind_eq_ok, objectMapping_eq_ok, Option.some.injEq, boundedIdentifier_eq_ok] at h
    rcases h with ⟨requestId, hrequest, sessionId, hsession, result, hresult, screenshot, hscreenshot, h⟩
    cases h
    refine ⟨content, rfl, hversion, hok, herror, hrequest.1, hsession.1, hresult, hscreenshot, htext, ?_, ?_,
      hrequest.2, hsession.2, ?_⟩
    · intro hyes
      exact by_contra fun hno => hsuccess ⟨hyes, hno⟩
    · intro hno
      refine ⟨fun hnone => hfailed ⟨hno, hnone⟩, ?_⟩
      rcases readScreenshot_eq_ok.mp hscreenshot with ⟨-, hnone⟩ | ⟨raw, media, hraw, -⟩
      · exact hnone
      · exact absurd ⟨hno, by rw [hraw]; simp⟩ hplain
    · intro media hmedia
      rcases readScreenshot_eq_ok.mp hscreenshot with ⟨-, hnone⟩ | ⟨raw, media', -, hsome, hread⟩
      · dsimp only at hmedia
        rw [hnone] at hmedia
        cases hmedia
      · obtain rfl : media' = media := Option.mem_unique hsome hmedia
        rcases EncryptedDesktopMedia.fromContent_eq_ok.mp hread with
          ⟨_, _, _, -, -, -, -, -, -, -, -, -, -, -, -, -, haccepted⟩
        exact haccepted
  · rintro ⟨content, rfl, hversion, hok, herror, hrequest, hsession, hresult, hscreenshot, htext, hsuccess,
      hfailed, hrequestId, hsessionId, hmedia⟩
    refine ⟨content, rfl, (), hversion, response.ok, hok, response.error, ⟨herror, htext⟩, ?_⟩
    rw [if_neg (fun h => h.2 (hsuccess h.1)), if_neg (fun h => (hfailed h.1).1 h.2), if_neg ?_]
    · simp only [Transaction.except_bind_eq_ok, objectMapping_eq_ok, Option.some.injEq, boundedIdentifier_eq_ok]
      exact ⟨response.requestId, ⟨hrequest, hrequestId⟩, response.sessionId, ⟨hsession, hsessionId⟩,
        response.result, hresult, response.screenshot, hscreenshot, rfl⟩
    · rintro ⟨hno, hpresent⟩
      rcases readScreenshot_eq_ok.mp hscreenshot with ⟨hnone, -⟩ | ⟨raw, media, -, hsome, -⟩
      · exact hpresent hnone
      · rw [(hfailed hno).2] at hsome
        cases hsome

/-! ## Reading what was written -/

/-- `key` of an encrypted file. -/
def EncryptedDesktopMedia.ring (media : EncryptedDesktopMedia) : Dict :=
  [("alg", .str "A256CTR"), ("ext", .bool true), ("k", .str media.key),
    ("key_ops", .arr [.str "encrypt", .str "decrypt"]), ("kty", .str "oct")]

/-- A written encrypted file is read back when it is accepted. -/
theorem EncryptedDesktopMedia.fromContent_sorted {media read : EncryptedDesktopMedia} :
    fromContent (sorted (.obj media.toContent)) = .ok read ↔ read = media ∧ media.Accepted := by
  have hkeys : (media.toContent.map (·.1)).Nodup := by
    show ["url", "key", "iv", "hashes", "v", "mimetype", "size"].Nodup
    decide
  have hring : (media.ring.map (·.1)).Nodup := by
    show ["alg", "ext", "k", "key_ops", "kty"].Nodup
    decide
  have hdigest : (([("sha256", .str media.sha256)] : Dict).map (·.1)).Nodup := List.nodup_singleton _
  have hkey : Dict.get? (Dict.sortKeys (sortedMembers media.toContent)) "key" =
      some (.obj (Dict.sortKeys (sortedMembers media.ring))) := get?_sorted hkeys "key"
  have hhashes : Dict.get? (Dict.sortKeys (sortedMembers media.toContent)) "hashes" =
      some (.obj (Dict.sortKeys (sortedMembers [("sha256", .str media.sha256)]))) :=
    get?_sorted hkeys "hashes"
  have hstr := str?_sorted hkeys
  have hsize := num?_sorted hkeys "size"
  rw [sorted, fromContent_eq_ok]
  constructor
  · rintro ⟨content, key, hashes, hcontent, hkey', hhashes', -, -, -, -, hurl, hsize', hmime, hk, hiv, hsha, haccepted⟩
    obtain rfl := Json.obj.inj hcontent
    obtain rfl := Json.obj.inj (Option.mem_unique hkey hkey')
    obtain rfl := Json.obj.inj (Option.mem_unique hhashes hhashes')
    rw [hstr] at hurl hmime hiv
    rw [hsize] at hsize'
    rw [str?_sorted hring] at hk
    rw [str?_sorted hdigest] at hsha
    obtain rfl : read = media := by
      cases read
      cases media
      simp only [EncryptedDesktopMedia.mk.injEq]
      exact ⟨(Option.some.inj hurl).symm, (Option.some.inj hk).symm, (Option.some.inj hiv).symm,
        (Option.some.inj hsha).symm, (Option.some.inj hmime).symm, (Option.some.inj hsize').symm⟩
    exact ⟨rfl, haccepted⟩
  · rintro ⟨rfl, haccepted⟩
    refine ⟨_, _, _, rfl, hkey, hhashes, ?_, ?_, ?_, hstr "v", hstr "url", hsize, hstr "mimetype", ?_, hstr "iv",
      ?_, haccepted⟩
    · exact str?_sorted hring "alg"
    · exact str?_sorted hring "kty"
    · exact get?_sorted hring "ext"
    · exact str?_sorted hring "k"
    · exact str?_sorted hdigest "sha256"

namespace DesktopResponse

/-- The response with the members of its result in order: what a mapping compares as. -/
def canonical (response : DesktopResponse) : DesktopResponse :=
  { response with result := Dict.sortKeys (sortedMembers response.result) }

theorem keys_toContent (response : DesktopResponse) : (response.toContent.map (·.1)).Nodup := by
  unfold toContent
  cases response.error <;> cases response.screenshot <;> simp

theorem get?_error (response : DesktopResponse) :
    Dict.get? response.toContent "error" = response.error.map Json.str := by
  unfold toContent
  cases response.error <;> cases response.screenshot <;> rfl

theorem get?_screenshot (response : DesktopResponse) :
    Dict.get? response.toContent "screenshot" = response.screenshot.map fun media => .obj media.toContent := by
  unfold toContent
  cases response.error <;> cases response.screenshot <;> rfl

theorem present_sorted {content : Dict} (hcontent : (content.map (·.1)).Nodup) (key : String) :
    present (Dict.sortKeys (sortedMembers content)) key = (present content key).map sorted := by
  unfold present
  rw [get?_sorted hcontent]
  cases Dict.get? content key with
  | none => rfl
  | some v => cases v <;> rfl

/-- A written response is read back when it is accepted. -/
theorem fromContent_sorted {response read : DesktopResponse} :
    fromContent (sorted (.obj response.toContent)) = .ok read ↔ read = response.canonical ∧ response.Accepted := by
  have hkeys := keys_toContent response
  have hstr := str?_sorted hkeys
  have hget := get?_sorted hkeys
  have hversion := num?_sorted hkeys "v"
  have herror : present (Dict.sortKeys (sortedMembers response.toContent)) "error" =
      response.error.map Json.str := by
    rw [present_sorted hkeys, present, get?_error]
    cases response.error <;> rfl
  have hscreenshot : present (Dict.sortKeys (sortedMembers response.toContent)) "screenshot" =
      response.screenshot.map fun media => sorted (.obj media.toContent) := by
    rw [present_sorted hkeys, present, get?_screenshot]
    cases response.screenshot <;> rfl
  have hresult : Dict.get? (Dict.sortKeys (sortedMembers response.toContent)) "result" =
      some (.obj (Dict.sortKeys (sortedMembers response.result))) := hget "result"
  rw [sorted, fromContent_eq_ok]
  constructor
  · rintro ⟨content, hcontent, -, hok, herror', hrequest, hsession, hresult', hscreenshot', haccepted⟩
    obtain rfl := Json.obj.inj hcontent
    rw [hget] at hok
    rw [hstr] at hrequest hsession
    rw [hresult] at hresult'
    have hread : read.error = response.error := by
      rw [herror] at herror'
      exact (Option.map_injective (fun _ _ h => Json.str.inj h) herror').symm
    have hmedia : read.screenshot = response.screenshot := by
      rcases readScreenshot_eq_ok.mp hscreenshot' with ⟨hnone, hread⟩ | ⟨raw, media, hraw, hread, hfrom⟩
      · rw [hscreenshot, Option.map_eq_none_iff] at hnone
        rw [hread, hnone]
      · rw [hscreenshot, Option.map_eq_some_iff] at hraw
        rcases hraw with ⟨written, hwritten, rfl⟩
        rw [hread, hwritten, (EncryptedDesktopMedia.fromContent_sorted.mp hfrom).1]
    obtain rfl : read = response.canonical := by
      cases read
      cases response
      dsimp only at hread hmedia
      subst hread hmedia
      simp only [canonical, DesktopResponse.mk.injEq, and_true]
      exact ⟨(Option.some.inj hrequest).symm, (Option.some.inj hsession).symm,
        (Json.bool.inj (Option.some.inj hok)).symm, (Json.obj.inj hresult').symm⟩
    exact ⟨rfl, haccepted⟩
  · rintro ⟨rfl, haccepted⟩
    refine ⟨_, rfl, hversion, hget "ok", herror, hstr "request_id", hstr "session_id", ?_, ?_, haccepted⟩
    · rw [hresult]
      rfl
    · rw [readScreenshot_eq_ok, hscreenshot]
      cases hmedia : response.screenshot with
      | none => exact .inl ⟨rfl, hmedia⟩
      | some media =>
        have hread := EncryptedDesktopMedia.fromContent_sorted.mpr
          ⟨rfl, haccepted.2.2.2.2.2 media hmedia⟩
        exact .inr ⟨_, media, rfl, hmedia, hread⟩

end DesktopResponse

end MindRoom
