import CorpLlmGateway.Detectors.Finding
import CorpLlmGateway.Text.Numerals
import CorpLlmGateway.Text.Regex

/-!
# The regex and checksum detector

The model of `detectors/regex_checksum.py`: the rule table with its patterns and
validators, the formatted SNILS numbers, the bank accounts with their BIK context and
the card numbers inside longer digit runs.

* `rawFindings_bounds` — every raw finding is a range of the text;
* `mem_extents_detect` — the detector reports the winners of the raw findings.
-/

namespace CorpLlmGateway.Detectors

open TextScan Regex CorpLlmGateway.Sanitizer
open Numerals (numeral)

/-! ## Digits -/

/-- `s.isdigit()` for texts that come from `\d`. -/
def isDigits (s : Text) : Bool := s != [] && s.all Unicode.isDecimal

/-- `[int(c) for c in s]`. -/
def digitsOf (s : Text) : List ℕ := s.map Unicode.digitValue

/-- `sum(w[i] * d[i] for i in range(len(w)))`. -/
def weighted (w d : List ℕ) : ℕ := (List.zipWith (· * ·) w d).sum

/-! ## Validators -/

def inn10Ok (s : Text) : Bool :=
  let d := digitsOf s
  weighted [2, 4, 10, 3, 5, 9, 4, 6, 8] d % 11 % 10 == d.getD 9 0

def inn12Ok (s : Text) : Bool :=
  let d := digitsOf s
  let n1 := weighted [7, 2, 4, 10, 3, 5, 9, 4, 6, 8] d % 11 % 10
  let n2 := weighted [3, 7, 2, 4, 10, 3, 5, 9, 4, 6, 8] d % 11 % 10
  d.getD 10 0 == n1 && d.getD 11 0 == n2

def innOk (s : Text) : Bool :=
  if !isDigits s then false
  else if s.length = 10 then inn10Ok s
  else if s.length = 12 then inn12Ok s
  else false

def ogrn13Ok (s : Text) : Bool := isDigits s && numeral (s.take 12) % 11 % 10 == numeral (slice s 12 13)

def ogrn15Ok (s : Text) : Bool := isDigits s && numeral (s.take 14) % 13 % 10 == numeral (slice s 14 15)

def ogrnOk (s : Text) : Bool :=
  if s.length = 13 then ogrn13Ok s else if s.length = 15 then ogrn15Ok s else false

def snilsOk (s : Text) : Bool :=
  if !isDigits s || s.length != 11 then false
  else if numeral (s.take 9) ≤ 1001998 then numeral (slice s 9 11) == 0
  else
    let total := weighted [9, 8, 7, 6, 5, 4, 3, 2, 1] (digitsOf s)
    let check := if total < 100 then total else if total = 100 ∨ total = 101 then 0
      else if total % 101 = 100 ∨ total % 101 = 101 then 0 else total % 101
    numeral (slice s 9 11) == check

/-- Remove the grouping characters of a card number. -/
def ungroup (s : Text) : Text := s.filter fun c => c != ' ' && c != '-'

/-- The Luhn sum of digits in reverse order: every second one is doubled. -/
def luhnSum : Bool → List ℕ → ℕ
  | _, [] => 0
  | odd, d :: ds =>
      (if odd then (if 9 < 2 * d then 2 * d - 9 else 2 * d) else d) + luhnSum (!odd) ds

def luhnOk (s : Text) : Bool :=
  let digits := ungroup s
  if !isDigits digits || !(13 ≤ digits.length && digits.length ≤ 19) then false
  else luhnSum false (digitsOf digits).reverse % 10 == 0

/-- `_card_lengths(digits)`: the lengths the issuer of these first digits emits. -/
def cardLengths (digits : Text) : List ℕ :=
  if digits.length < 4 || !isDigits (digits.take 4) then []
  else
    let p4 := numeral (digits.take 4)
    let p3 := p4 / 10
    let p2 := p4 / 100
    if 2200 ≤ p4 && p4 ≤ 2204 then [16, 19]
    else if 2221 ≤ p4 && p4 ≤ 2720 then [16]
    else if p2 == 34 || p2 == 37 then [15]
    else if (300 ≤ p3 && p3 ≤ 305) || p4 == 3095 || p2 == 36 || p2 == 38 || p2 == 39 then [14, 16]
    else if 3528 ≤ p4 && p4 ≤ 3589 then [16, 19]
    else if p2 / 10 == 4 then [13, 16, 19]
    else if 51 ≤ p2 && p2 ≤ 55 then [16]
    else if p2 == 50 || (56 ≤ p2 && p2 ≤ 58) then [16, 19]
    else if p2 == 62 || p2 == 81 then [16, 19]
    else if p4 == 6011 || (644 ≤ p3 && p3 ≤ 649) || p2 == 65 then [16, 19]
    else []

def bikOk (s : Text) : Bool :=
  isDigits s && s.take 2 == "04".toList && s.drop (s.length - 3) != "000".toList

def kppOk (s : Text) : Bool :=
  s.length == 9 && isDigits (s.take 4) && (slice s 4 6).all Unicode.isAlnum &&
    isDigits (s.drop 6) && s.drop 6 != "000".toList

/-- `s.split(c)`. -/
def splitOn (c : Char) : Text → List Text
  | [] => [[]]
  | d :: s =>
      match splitOn c s with
      | [] => [[]]
      | part :: parts => if d = c then [] :: part :: parts else (d :: part) :: parts

/-- `ipaddress`'s decimal octet: ASCII digits, at most three, no leading zero, up to 255. -/
def octetOk (s : Text) : Bool :=
  s != [] && s.all Char.isDigit && s.length ≤ 3 && (s == "0".toList || s.head? != some '0') &&
    numeral s ≤ 255

def ipv4Ok (s : Text) : Bool :=
  let octets := splitOn '.' s
  octets.length == 4 && octets.all octetOk

def isHexDigit (c : Char) : Bool := c.isDigit || "abcdefABCDEF".toList.contains c

def hextetOk (s : Text) : Bool := s != [] && s.all isHexDigit && s.length ≤ 4

/-- `ipaddress.IPv6Address` accepts the text; `_IPV6_PAT` leaves no dot in it. -/
def ipv6AddressOk (s : Text) : Bool :=
  let parts := splitOn ':' s
  let n := parts.length
  if n < 3 || 9 < n then false
  else
    let skips := (List.range n).filter fun i => 1 ≤ i && i + 1 < n && parts.getD i [] == []
    match skips with
    | [] => n == 8 && parts.all hextetOk
    | [skip] =>
        let first := parts.getD 0 [] == []
        let last := parts.getD (n - 1) [] == []
        let hi := if first then skip - 1 else skip
        let lo := if last then n - skip - 2 else n - skip - 1
        !(first && hi != 0) && !(last && lo != 0) && hi + lo < 8 &&
          (parts.take hi).all hextetOk && (parts.drop (n - lo)).all hextetOk
    | _ => false

def ipv6Ok (s : Text) : Bool := ipv6AddressOk ((splitOn '%' s).getD 0 [])

/-- `ipaddress.ip_network(s, strict=False)` accepts `a.b.c.d/n`. -/
def cidrOk (s : Text) : Bool :=
  match splitOn '/' s with
  | [addr, len] => ipv4Ok addr && len != [] && len.all Char.isDigit && numeral len ≤ 32
  | _ => false

def acceptAll (_ : Text) : Bool := true

def acctWeights : List ℕ := [7, 1, 3, 7, 1, 3, 7, 1, 3, 7, 1, 3, 7, 1, 3, 7, 1, 3, 7, 1, 3, 7, 1]

def bankAcctKeyOk (account bik : Text) : Bool :=
  let combined := bik.drop (bik.length - 3) ++ account
  if combined.length != 23 || !isDigits combined then false
  else weighted acctWeights (digitsOf combined) % 10 == 0

/-! ## Patterns -/

open Pat

/-- `\d`. -/
def dig : Pat := chr Unicode.isDecimal

/-- `\s`. -/
def sp : Pat := chr Unicode.isSpace

/-- `[A-Za-z0-9]`. -/
def alnum : Pat := chr Char.isAlphanum

/-- `[A-Za-z]` when case is ignored: also the letters that fold to one of them. -/
def isLetterAnyCase (c : Char) : Bool :=
  c.isAlpha || "abcdefghijklmnopqrstuvwxyz".toList.any fun a => Unicode.eqIgnoreCase a c

def innPat : Pat := seqs [wordBoundary, group 1 (alt (times 10 dig) (times 12 dig)), wordBoundary]

def kppPat : Pat :=
  seqs [wordBoundary, group 1 (seqs [times 4 dig, times 2 (cls "" [Char.isDigit, Char.isUpper]),
    times 3 dig]), wordBoundary]

/-- `[1-9]`. -/
def nonzero : Pat := chr fun c => c.isDigit && c != '0'

def ogrnPat : Pat :=
  seqs [wordBoundary, group 1 (alt (seq nonzero (times 12 dig)) (seq nonzero (times 14 dig))),
    wordBoundary]

def snilsKwPat : Pat := seqs [str "СНИЛС", plus sp, group 1 (times 11 dig)]

def snilsFmtPat : Pat :=
  seqs [group 1 (times 3 dig), lit '-', group 2 (times 3 dig), lit '-', group 3 (times 3 dig),
    plus sp, group 4 (times 2 dig)]

def bikPat : Pat :=
  seqs [wordBoundary, group 1 (seq (str "04") (times 7 dig)), wordBoundary]

def acctKwPat : Pat :=
  seqs [alt
      (seqs [ilit 'р', opt (ilit '/'), ilit 'с', opt (alts [istr "чёт", istr "чет", ilit 'ч']),
        star (cls "." [Unicode.isSpace]), opt (ilit '№'), star sp])
      (seqs [alt (istr "расчётный") (istr "расчетный"), plus sp, istr "счё", opt (ilit 'т'),
        star sp]),
    group 1 (times 20 dig)]

def acctBarePat : Pat :=
  seqs [wordBoundary, group 1 (seq (alts [str "30", str "40", str "42", str "43", str "45"])
    (times 18 dig)), wordBoundary]

/-- `[ -]`. -/
def cardSep : Pat := cls " -" []

/-- Four groups of four digits. -/
def cardGroups : Pat :=
  seqs [times 4 dig, cardSep, times 4 dig, cardSep, times 4 dig, cardSep, times 4 dig]

def cardPat : Pat :=
  seqs [wordBoundary, group 1 (alts [seq cardGroups (opt (seq cardSep (times 3 dig))),
    seqs [times 4 dig, cardSep, times 6 dig, cardSep, times 5 dig], between 13 19 dig]),
    wordBoundary]

def cardGroup16Pat : Pat := seqs [wordBoundary, group 1 cardGroups, wordBoundary]

def digitRunPat : Pat := seq dig (star (seq (opt cardSep) dig))

def octet : Pat := between 1 3 dig

def ipv4Text : Pat := seqs [octet, lit '.', octet, lit '.', octet, lit '.', octet]

def ipv4Pat : Pat := seqs [wordBoundary, group 1 ipv4Text, wordBoundary]

def cidrPat : Pat :=
  seqs [wordBoundary, group 1 (seqs [ipv4Text, lit '/', between 1 2 dig]), wordBoundary]

def hextet : Pat := between 1 4 (chr isHexDigit)

def ipv6Pat : Pat :=
  seqs [notBehind fun c => isHexDigit c || c == ':',
    group 1 (alts [seq hextet (times 7 (seq (lit ':') hextet)),
      seq (between 1 7 (seq hextet (lit ':'))) (lit ':'),
      seqs [str "::", between 0 5 (seq hextet (lit ':')), hextet],
      seqs [between 1 6 (seq hextet (lit ':')), lit ':', hextet],
      str "::"]),
    notAhead fun c => isHexDigit c || c == ':']

def hostnamePat : Pat :=
  seqs [wordBoundary, group 1 (seqs [chr Unicode.isWord, star (cls ".-" [Unicode.isWord]), lit '.',
    alts [istr "corp.internal", istr "corp.lan", istr "local", istr "lan"]]), wordBoundary]

def dbUrlPat : Pat :=
  group 1 (seqs [alts [seq (istr "postgres") (opt (istr "ql")), istr "mysql", istr "mongodb",
    istr "redis"], str "://", atLeast 3 (notCls "\"'<>" [Unicode.isSpace])])

/-- `[A-Za-z0-9_\-]`. -/
def base64url : Pat := cls "_-" [Char.isAlphanum]

def jwtPat : Pat :=
  seqs [wordBoundary, group 1 (seqs [str "eyJ", plus base64url, lit '.', plus base64url, lit '.',
    star base64url]), wordBoundary]

def bearerPat : Pat :=
  seqs [wordBoundary, istr "Bearer", plus sp,
    group 1 (seq (atLeast 20 (cls "-._~+/" [Char.isDigit, isLetterAnyCase]))
      (between 0 2 (lit '=')))]

/-- `-----BEGIN (?:[\w]+ )?PRIVATE KEY-----`, and the same with `END`. -/
def pemLine (keyword : String) : Pat :=
  seqs [str "-----", str keyword, lit ' ', opt (seq (plus (chr Unicode.isWord)) (lit ' ')),
    str "PRIVATE KEY-----"]

def pemPat : Pat :=
  group 1 (seqs [pemLine "BEGIN", rep false 1 (some 8192) (chr fun _ => true), pemLine "END"])

def openaiKeyPat : Pat :=
  seqs [wordBoundary, group 1 (seq (str "sk-") (atLeast 32 alnum)), wordBoundary]

def awsKeyPat : Pat :=
  seqs [wordBoundary, group 1 (seq (str "AKIA") (times 16 (cls "" [Char.isUpper, Char.isDigit]))),
    wordBoundary]

def ghTokenPat : Pat :=
  seqs [wordBoundary, group 1 (seq (str "ghp_") (times 36 alnum)), wordBoundary]

/-- `\s*[=:]\s*["']?`, between a keyword and its value. -/
def assignment : Pat := seqs [star sp, cls "=:" [], star sp, opt (cls "\"'" [])]

/-- A keyword of two words, as in `api[_\-]?key`. -/
def keyOf (word : String) : Pat := seqs [istr word, opt (cls "_-" []), istr "key"]

def genericSecretPat : Pat :=
  seqs [alts [istr "token", istr "secret", keyOf "api", keyOf "access", keyOf "private"], assignment,
    group 1 (seq (atLeast 20 (cls "+/-_" [Char.isDigit, isLetterAnyCase])) (between 0 2 (lit '=')))]

def passwordPat : Pat :=
  seqs [alts [istr "password", istr "passwd", istr "pwd", istr "pass"], assignment,
    group 1 (atLeast 4 (notCls "\"',;" [Unicode.isSpace]))]

def emailPat : Pat :=
  seqs [wordBoundary, group 1 (seqs [plus (cls "._%+-" [Char.isAlphanum]), lit '@',
    plus (cls ".-" [Char.isAlphanum]), lit '.', atLeast 2 (chr Char.isAlpha)]), wordBoundary]

/-- `[\s\-]?`. -/
def phoneSep : Pat := opt (cls "-" [Unicode.isSpace])

def phoneRuPat : Pat :=
  seqs [notBehind Unicode.isDecimal,
    group 1 (seqs [alt (str "+7") (lit '8'), phoneSep, opt (lit '('), times 3 dig, opt (lit ')'),
      phoneSep, times 3 dig, phoneSep, times 2 dig, phoneSep, times 2 dig]),
    notAhead Unicode.isDecimal]

def phoneIntlPat : Pat :=
  seqs [notBehind Unicode.isDecimal,
    group 1 (seqs [lit '+', chr fun c => c.isDigit && c != '0' && c != '1', between 6 14 dig]),
    notAhead Unicode.isDecimal]

/-! ## The rule table -/

/-- `_Rule`. -/
structure DetectorRule where
  label : String
  pattern : Pat
  validator : Text → Bool
  score : ℚ
  group : ℕ := 1

/-- `_RULES`. -/
def detectorRules : List DetectorRule :=
  [⟨"PEM_PRIVATE_KEY", pemPat, acceptAll, 1, 1⟩,
    ⟨"DB_URL", dbUrlPat, acceptAll, 1, 0⟩,
    ⟨"JWT", jwtPat, acceptAll, 95 / 100, 1⟩,
    ⟨"API_KEY", openaiKeyPat, acceptAll, 1, 1⟩,
    ⟨"API_KEY", awsKeyPat, acceptAll, 1, 1⟩,
    ⟨"API_KEY", ghTokenPat, acceptAll, 1, 1⟩,
    ⟨"API_KEY", genericSecretPat, acceptAll, 85 / 100, 1⟩,
    ⟨"TOKEN", bearerPat, acceptAll, 9 / 10, 1⟩,
    ⟨"PASSWORD", passwordPat, acceptAll, 9 / 10, 1⟩,
    ⟨"CIDR", cidrPat, cidrOk, 1, 1⟩,
    ⟨"IP_ADDRESS", ipv4Pat, ipv4Ok, 1, 1⟩,
    ⟨"IP_ADDRESS", ipv6Pat, ipv6Ok, 9 / 10, 1⟩,
    ⟨"HOSTNAME", hostnamePat, acceptAll, 7 / 10, 1⟩,
    ⟨"OGRN", ogrnPat, ogrnOk, 1, 1⟩,
    ⟨"RU_INN", innPat, innOk, 1, 1⟩,
    ⟨"BANK_CARD", cardPat, luhnOk, 1, 1⟩,
    ⟨"BANK_CARD", cardGroup16Pat, luhnOk, 1, 1⟩,
    ⟨"SNILS", snilsKwPat, snilsOk, 1, 1⟩,
    ⟨"BIK", bikPat, bikOk, 95 / 100, 1⟩,
    ⟨"KPP", kppPat, kppOk, 9 / 10, 1⟩,
    ⟨"EMAIL", emailPat, acceptAll, 95 / 100, 1⟩,
    ⟨"PHONE_NUMBER", phoneRuPat, acceptAll, 9 / 10, 1⟩,
    ⟨"PHONE_NUMBER", phoneIntlPat, acceptAll, 85 / 100, 1⟩]

/-- The findings of one rule: its matches whose group is set and passes the validator. -/
def DetectorRule.findings (rule : DetectorRule) (text : Text) : List Finding :=
  (finditer (matcher rule.pattern) text).filterMap fun m =>
    match span m rule.group with
    | none => none
    | some (a, b) =>
        if rule.validator (slice text a b) then
          some ⟨slice text a b, rule.label.toList, a, b, rule.score⟩
        else none

/-- The text of group `i` of a match. -/
def groupText (text : Text) (m : Hit (List (ℕ × ℕ × ℕ))) (i : ℕ) : Text :=
  match span m i with
  | none => []
  | some (a, b) => slice text a b

/-- Formatted SNILS numbers. -/
def snilsFindings (text : Text) : List Finding :=
  (finditer (matcher snilsFmtPat) text).filterMap fun m =>
    if snilsOk (groupText text m 1 ++ groupText text m 2 ++ groupText text m 3 ++ groupText text m 4)
    then some ⟨slice text m.start m.stop, "SNILS".toList, m.start, m.stop, 1⟩
    else none

/-- The ranges of group 1 of all matches of a pattern. -/
def groupRanges (pattern : Pat) (text : Text) : List (ℕ × ℕ) :=
  (finditer (matcher pattern) text).filterMap fun m => span m 1

/-- `abs(a - b)`. -/
def distance (a b : ℕ) : ℕ := max a b - min a b

/-- The ranges of the bank accounts, first those with a keyword. -/
def acctSpans (text : Text) : List (ℕ × ℕ) :=
  groupRanges acctKwPat text ++ groupRanges acctBarePat text

/-- The score of an account: certain if its key matches a BIK within 300 characters. -/
def acctScore (text : Text) (biks : List (ℕ × ℕ)) (a : ℕ × ℕ) : ℚ :=
  if biks.any fun b => min (distance a.1 b.2) (distance b.1 a.2) < 300 &&
      bankAcctKeyOk (slice text a.1 a.2) (slice text b.1 b.2) then 1
  else 7 / 10

def acctFindings (text : Text) : List Finding :=
  (acctSpans text).map fun a =>
    ⟨slice text a.1 a.2, "BANK_ACCOUNT".toList, a.1, a.2,
      acctScore text (groupRanges bikPat text) a⟩

/-! ## Cards inside digit runs -/

/-- The loop of `_merge_spans` over sorted spans; `cur` is the last merged span. -/
def mergeFrom (cur : ℕ × ℕ) : List (ℕ × ℕ) → List (ℕ × ℕ)
  | [] => [cur]
  | s :: ss =>
      if s.1 < cur.2 then mergeFrom (cur.1, max cur.2 s.2) ss else cur :: mergeFrom s ss

/-- `_merge_spans(spans)`. -/
def mergeSpans (spans : List (ℕ × ℕ)) : List (ℕ × ℕ) :=
  match spans.insertionSort fun a b => a.1 < b.1 ∨ (a.1 = b.1 ∧ a.2 ≤ b.2) with
  | [] => []
  | s :: ss => mergeFrom s ss

/-- `_CARD_STRAY_MARGIN`. -/
def cardStrayMargin : ℕ := 0

/-- The positions of the digits of a run that starts at `pos`. -/
def digitOffsets : ℕ → Text → List ℕ
  | _, [] => []
  | pos, c :: cs =>
      if Unicode.isDecimal c then pos :: digitOffsets (pos + 1) cs else digitOffsets (pos + 1) cs

/-- The card spans of one digit run. -/
def runCards (pos : ℕ) (run : Text) : List (ℕ × ℕ) :=
  let offsets := digitOffsets pos run
  let n := offsets.length
  let digits := ungroup run
  (List.range (n - 12)).flatMap fun i =>
    (cardLengths (slice digits i (i + 4))).filterMap fun len =>
      if n < i + len then none
      else
        let tail := n - i - len
        if i ≠ 0 ∧ tail ≠ 0 ∧ (cardStrayMargin < i ∨ cardStrayMargin < tail) then none
        else if luhnOk (slice digits i (i + len)) then
          some (offsets.getD i 0, offsets.getD (i + len - 1) 0 + 1)
        else none

/-- `_card_candidates(text)`. -/
def cardCandidates (text : Text) : List (ℕ × ℕ) :=
  (finditer (matcher digitRunPat) text).flatMap fun r =>
    mergeSpans (runCards r.start (slice text r.start r.stop))

/-- Cards that no account already claims. -/
def cardFindings (text : Text) : List Finding :=
  ((cardCandidates text).filter fun c =>
    !(acctSpans text).any fun a => a.1 ≤ c.1 && c.2 ≤ a.2).map fun c =>
      ⟨slice text c.1 c.2, "BANK_CARD".toList, c.1, c.2, 1⟩

/-- All findings before overlaps are resolved. -/
def rawFindings (text : Text) : List Finding :=
  (detectorRules.flatMap fun rule => rule.findings text) ++ snilsFindings text ++
    acctFindings text ++ cardFindings text

/-- `RegexChecksumDetector.detect(text)`. -/
def detect (text : Text) : List Finding := deduplicate (rawFindings text)

/-! ## Findings are ranges of the text -/

theorem DetectorRule.findings_bounds {rule : DetectorRule} {text : Text} :
    ∀ f ∈ rule.findings text, f.stop ≤ text.length := by
  intro f hf
  rcases List.mem_filterMap.mp hf with ⟨m, hm, hfm⟩
  cases hs : span m rule.group with
  | none =>
    rw [hs] at hfm
    exact absurd hfm (by simp)
  | some r =>
    rcases span_bounds hm hs with ⟨_, _, hstop, hlen⟩
    rw [hs] at hfm
    simp only at hfm
    split at hfm
    · rw [← Option.some.inj hfm]
      exact hstop.trans hlen
    · exact absurd hfm (by simp)

theorem snilsFindings_bounds {text : Text} : ∀ f ∈ snilsFindings text, f.stop ≤ text.length := by
  intro f hf
  rcases List.mem_filterMap.mp hf with ⟨m, hm, hfm⟩
  split at hfm
  · rw [← Option.some.inj hfm]
    exact (matcher_sound _).stop_le hm
  · exact absurd hfm (by simp)

theorem groupRanges_bounds {pattern : Pat} {text : Text} :
    ∀ r ∈ groupRanges pattern text, r.2 ≤ text.length := by
  intro r hr
  rcases List.mem_filterMap.mp hr with ⟨m, hm, hs⟩
  rcases span_bounds hm hs with ⟨_, _, hstop, hlen⟩
  exact hstop.trans hlen

theorem acctFindings_bounds {text : Text} : ∀ f ∈ acctFindings text, f.stop ≤ text.length := by
  intro f hf
  rcases List.mem_map.mp hf with ⟨a, ha, rfl⟩
  rcases List.mem_append.mp ha with ha | ha
  · exact groupRanges_bounds a ha
  · exact groupRanges_bounds a ha

theorem mergeFrom_bounds {b : ℕ} {cur : ℕ × ℕ} {spans : List (ℕ × ℕ)} (hcur : cur.2 ≤ b)
    (h : ∀ s ∈ spans, s.2 ≤ b) : ∀ m ∈ mergeFrom cur spans, m.2 ≤ b := by
  induction spans generalizing cur with
  | nil =>
    intro m hm
    rwa [List.mem_singleton.mp hm]
  | cons s ss ih =>
    have hs := h s List.mem_cons_self
    have hss : ∀ t ∈ ss, t.2 ≤ b := fun t ht => h t (List.mem_cons_of_mem _ ht)
    unfold mergeFrom
    split
    · exact ih (max_le hcur hs) hss
    · intro m hm
      rcases List.mem_cons.mp hm with rfl | hm
      · exact hcur
      · exact ih hs hss m hm

theorem mergeSpans_bounds {b : ℕ} {spans : List (ℕ × ℕ)} (h : ∀ s ∈ spans, s.2 ≤ b) :
    ∀ m ∈ mergeSpans spans, m.2 ≤ b := by
  unfold mergeSpans
  split
  · simp
  · next s ss hsort =>
    have hmem : ∀ t ∈ s :: ss, t.2 ≤ b := by
      intro t ht
      rw [← hsort] at ht
      exact h t ((List.mem_insertionSort _).mp ht)
    exact mergeFrom_bounds (hmem s List.mem_cons_self) fun t ht =>
      hmem t (List.mem_cons_of_mem _ ht)

theorem digitOffsets_lt (pos : ℕ) (run : Text) : ∀ o ∈ digitOffsets pos run, o < pos + run.length := by
  induction run generalizing pos with
  | nil => simp [digitOffsets]
  | cons c cs ih =>
    have hrest : ∀ o ∈ digitOffsets (pos + 1) cs, o < pos + (c :: cs).length := by
      intro o ho
      have := ih (pos + 1) o ho
      simp only [List.length_cons]
      omega
    unfold digitOffsets
    split
    · intro o ho
      rcases List.mem_cons.mp ho with rfl | ho
      · simp
      · exact hrest o ho
    · exact hrest

theorem runCards_bounds (pos : ℕ) (run : Text) : ∀ c ∈ runCards pos run, c.2 ≤ pos + run.length := by
  intro c hc
  rcases List.mem_flatMap.mp hc with ⟨i, hi, hc⟩
  rcases List.mem_filterMap.mp hc with ⟨len, _, hlen⟩
  have hpos : 0 < (digitOffsets pos run).length := by
    have := List.mem_range.mp hi
    omega
  -- an offset of the run, or the default that stands for none
  have hget : ∀ j, (digitOffsets pos run).getD j 0 + 1 ≤ pos + run.length := by
    intro j
    by_cases hj : j < (digitOffsets pos run).length
    · rw [List.getD_eq_getElem _ _ hj]
      exact digitOffsets_lt pos run _ (List.getElem_mem hj)
    · rw [List.getD_eq_default _ _ (Nat.le_of_not_lt hj)]
      have := digitOffsets_lt pos run _ (List.getElem_mem hpos)
      omega
  simp only [Option.ite_none_left_eq_some, Option.ite_none_right_eq_some, Option.some.injEq] at hlen
  rw [← hlen.2.2.2]
  exact hget _

theorem cardFindings_bounds {text : Text} : ∀ f ∈ cardFindings text, f.stop ≤ text.length := by
  intro f hf
  rcases List.mem_map.mp hf with ⟨c, hc, rfl⟩
  rcases List.mem_flatMap.mp (List.mem_filter.mp hc).1 with ⟨r, hr, hm⟩
  have hstop := (matcher_sound digitRunPat).stop_le hr
  have hle := (mem_finditer hr).2.1
  refine mergeSpans_bounds ?_ c hm
  intro s hs
  have hbound := runCards_bounds _ _ s hs
  rw [slice_length hle hstop] at hbound
  omega

theorem rawFindings_bounds {text : Text} : ∀ f ∈ rawFindings text, f.stop ≤ text.length := by
  intro f hf
  simp only [rawFindings, List.mem_append, List.mem_flatMap] at hf
  rcases hf with ((⟨rule, _, hf⟩ | hf) | hf) | hf
  · exact DetectorRule.findings_bounds f hf
  · exact snilsFindings_bounds f hf
  · exact acctFindings_bounds f hf
  · exact cardFindings_bounds f hf

/-- The extents of the raw findings. -/
def hits (text : Text) : List Extent := (rawFindings text).map Finding.extent

theorem mem_extents_detect {text : Text} {e : Extent} :
    e ∈ (detect text).map Finding.extent ↔ Wins (hits text) e :=
  mem_extents_deduplicate

end CorpLlmGateway.Detectors
