import GenieClaw.Library.IpAddr
import Mathlib.Data.List.DropRight

/-!
# The host of a web address

How a web client reads the host off a URL with the scheme `http` or `https`: blanks and
control characters at the ends and every tab and line break are dropped, the slashes and
backslashes after the scheme are skipped, the authority ends at the next slash,
backslash, `?` or `#`, and the host stands between the last `@` of the authority and the
port. What the host text then means (percent signs, international names, the short forms
of an IPv4 address) is left to `HostRules`, and parsing and writing a whole URL to
`UrlParser`.
-/

namespace GenieClaw.Library.Web

open Text List

def isC0OrSpace (c : Char) : Bool := decide (c.toNat ≤ 0x20)

def isTabOrNewline (c : Char) : Bool := c == '\t' || c == '\n' || c == '\r'

def withoutTabs (cs : List Char) : List Char := cs.filter fun c => !isTabOrNewline c

/-- The characters a parser sees. -/
def clean (cs : List Char) : List Char :=
  withoutTabs ((cs.dropWhile isC0OrSpace).rdropWhile isC0OrSpace)

def isSchemeChar (c : Char) : Bool := isAsciiAlphanumeric c || c == '+' || c == '-' || c == '.'

def isAsciiAlpha (c : Char) : Bool := isAsciiLowercase c.toLower

/-- The scheme in lower case and what follows its colon. -/
def splitScheme (cs : List Char) : Option (List Char × List Char) :=
  match cs.dropWhile isSchemeChar with
  | ':' :: rest =>
    if (cs.head?.map isAsciiAlpha).getD false then
      some ((cs.takeWhile isSchemeChar).map Char.toLower, rest)
    else none
  | _ => none

def isSlash (c : Char) : Bool := c == '/' || c == '\\'

def endsAuthority (c : Char) : Bool := isSlash c || c == '?' || c == '#'

def authorityOf (rest : List Char) : List Char :=
  (rest.dropWhile isSlash).takeWhile fun c => !endsAuthority c

/-- What stands after the last occurrence of `c`: everything where there is none. -/
def afterLast (c : Char) (cs : List Char) : List Char := cs.rtakeWhile fun x => x != c

/-- Up to the first colon outside square brackets. -/
def hostChars : Bool → List Char → List Char
  | _, [] => []
  | inside, c :: cs =>
    if c = ':' ∧ inside = false then []
    else c :: hostChars (if c = '[' then true else if c = ']' then false else inside) cs

/-- The host text of an authority, between the user info and the port. -/
def hostText (authority : List Char) : List Char := hostChars false (afterLast '@' authority)

def isWebScheme (scheme : List Char) : Bool :=
  scheme == "http".toList || scheme == "https".toList

/-- The host text of a URL with the scheme `http` or `https`. -/
def webHost (cs : List Char) : Option (List Char) :=
  match splitScheme (clean cs) with
  | some (scheme, rest) =>
    if isWebScheme scheme then some (hostText (authorityOf rest)) else none
  | none => none

inductive Host where
  | domain (name : String)
  | ip (addr : IpAddr)
deriving DecidableEq, Repr

/-- The name `localhost`, or a loopback address. -/
def Host.isLoopback : Host → Bool
  | .domain name => name == "localhost"
  | .ip addr => addr.isLoopback

/-- The host that a host text stands for, where it is one. -/
structure HostRules where
  parse : List Char → Option Host
  /-- Names are compared without regard to case. -/
  localhost : ∀ cs, cs.map Char.toLower = "localhost".toList → parse cs = some (.domain "localhost")
  ipv4 : ∀ cs a b c d, IpAddr.parseIp cs = some (.v4 a b c d) → parse cs = some (.ip (.v4 a b c d))
  /-- An IPv6 address stands in square brackets, and nothing else does. -/
  brackets : ∀ cs host, parse ('[' :: cs) = some host →
    ∃ addr groups, cs = addr ++ [']'] ∧ IpAddr.parseIp addr = some (.v6 groups) ∧
      host = .ip (.v6 groups)
  /-- White space is no part of a host. -/
  white : ∀ cs, (∃ c ∈ cs, isWhitespace c) → parse cs = none

/-- A library that parses and writes URLs. -/
structure UrlParser where
  Url : Type
  parse : String → Option Url
  scheme : Url → String
  host : Url → Option Host
  asStr : Url → String

/-- The standard's rules for the addresses of the web: the host of a parsed URL is the one
its host text stands for; a URL is written with its scheme, two slashes and an authority of
printable characters that names the same host; and nothing behind an authority makes a text
that begins like a written URL fail. -/
structure UrlParser.Standard (urls : UrlParser) (rules : HostRules) : Prop where
  host_eq : ∀ s url, urls.parse s = some url → isWebScheme (urls.scheme url).toList = true →
    ∃ text, webHost s.toList = some text ∧ urls.host url = rules.parse text
  host_isSome : ∀ s url, urls.parse s = some url → isWebScheme (urls.scheme url).toList = true →
    (urls.host url).isSome
  scheme_eq : ∀ s url, urls.parse s = some url → webHost s.toList ≠ none →
    isWebScheme (urls.scheme url).toList = true
  written : ∀ s url, urls.parse s = some url → isWebScheme (urls.scheme url).toList = true →
    ∃ authority tail,
      (urls.asStr url).toList =
        (urls.scheme url).toList ++ "://".toList ++ authority ++ '/' :: tail ∧
      authority ≠ [] ∧ (∀ c ∈ authority, 0x20 < c.toNat ∧ endsAuthority c = false) ∧
      rules.parse (hostText authority) = urls.host url ∧
      ∀ rest, (urls.parse (String.ofList
        ((urls.scheme url).toList ++ "://".toList ++ authority ++ '/' :: rest))).isSome

/-! ## Splitting at the last occurrence -/

variable {c : Char} {cs : List Char}

theorem afterLast_of_not_mem (h : c ∉ cs) : afterLast c cs = cs := by
  rw [afterLast, rtakeWhile_eq_self_iff]
  intro x hx
  exact bne_iff_ne.mpr (ne_of_mem_of_not_mem hx h)

theorem afterLast_append {before after : List Char} (h : c ∉ after) :
    afterLast c (before ++ c :: after) = after := by
  have hreverse : ∀ x ∈ after.reverse, (x != c) = true := by
    intro x hx
    exact bne_iff_ne.mpr (ne_of_mem_of_not_mem (List.mem_reverse.mp hx) h)
  rw [afterLast, List.rtakeWhile]
  rw [reverse_append, reverse_cons, append_assoc, takeWhile_append_of_pos
    hreverse]
  simp

theorem not_mem_afterLast (c : Char) (cs : List Char) : c ∉ afterLast c cs := by
  intro h
  simpa using mem_rtakeWhile_imp h

theorem afterLast_split (h : c ∈ cs) : ∃ before, cs = before ++ c :: afterLast c cs := by
  obtain ⟨as, bs, hreverse, has⟩ := eq_append_cons_of_mem (List.mem_reverse.mpr h)
  have hcs : cs = bs.reverse ++ c :: as.reverse := by
    rw [← reverse_reverse cs, hreverse]
    simp
  refine ⟨bs.reverse, ?_⟩
  rw [hcs, afterLast_append (mt List.mem_reverse.mp has)]

/-! ## Pieces of a URL -/

theorem isC0OrSpace_eq_false : isC0OrSpace c = false ↔ 0x20 < c.toNat := by
  rw [isC0OrSpace, decide_eq_false_iff_not, Nat.not_le]

theorem isC0OrSpace_of_isTabOrNewline (h : isTabOrNewline c = true) : isC0OrSpace c = true := by
  simp only [isTabOrNewline, Bool.or_eq_true, beq_iff_eq] at h
  rcases h with (rfl | rfl) | rfl <;> decide

theorem rdropWhile_append {p : Char → Bool} {front : List Char}
    (h : ∀ c ∈ front.getLast?, p c = false) (tail : List Char) :
    (front ++ tail).rdropWhile p = front ++ tail.rdropWhile p := by
  induction tail using List.reverseRecOn with
  | nil =>
    rw [append_nil, rdropWhile_nil, append_nil, rdropWhile_eq_self_iff]
    intro hne
    rw [h _ (getLast?_eq_some_getLast hne)]
    exact Bool.false_ne_true
  | append_singleton tail c ih =>
    rw [← append_assoc, rdropWhile_concat, rdropWhile_concat, ih]
    split_ifs
    · rfl
    · rw [append_assoc]

theorem printable_of_endsAuthority (h : endsAuthority c = true) : 0x20 < c.toNat := by
  simp only [endsAuthority, isSlash, Bool.or_eq_true, beq_iff_eq] at h
  rcases h with ((rfl | rfl) | rfl) | rfl <;> decide

theorem withoutTabs_eq_self (h : ∀ c ∈ cs, 0x20 < c.toNat) : withoutTabs cs = cs := by
  apply List.filter_eq_self.mpr
  intro c hc
  rw [Bool.not_eq_true', ← Bool.not_eq_true]
  intro htab
  have := isC0OrSpace_of_isTabOrNewline htab
  rw [isC0OrSpace_eq_false.mpr (h c hc)] at this
  cases this

theorem withoutTabs_nil : withoutTabs [] = [] := rfl

theorem withoutTabs_append (xs ys : List Char) :
    withoutTabs (xs ++ ys) = withoutTabs xs ++ withoutTabs ys := filter_append ..

/-- What cleaning leaves of the end of a text. -/
def cleanBack (cs : List Char) : List Char := withoutTabs (cs.rdropWhile isC0OrSpace)

theorem cleanBack_append {front : List Char} (hprint : ∀ c ∈ front, 0x20 < c.toNat)
    (tail : List Char) : cleanBack (front ++ tail) = front ++ cleanBack tail := by
  have hlast : ∀ c ∈ front.getLast?, isC0OrSpace c = false :=
    fun c hc => isC0OrSpace_eq_false.mpr (hprint c (mem_of_getLast? hc))
  rw [cleanBack, rdropWhile_append hlast, withoutTabs_append, withoutTabs_eq_self hprint]
  rfl

theorem cleanBack_middle (hc : 0x20 < c.toNat) (front tail : List Char) :
    cleanBack (front ++ c :: tail) = withoutTabs front ++ c :: cleanBack tail := by
  have hlast : ∀ d ∈ (front ++ [c]).getLast?, isC0OrSpace d = false := by
    intro d hd
    rw [getLast?_concat] at hd
    cases hd
    exact isC0OrSpace_eq_false.mpr hc
  have hself : withoutTabs [c] = [c] := withoutTabs_eq_self (by simpa using hc)
  have hcs : front ++ c :: tail = front ++ [c] ++ tail := by simp
  rw [hcs, cleanBack, rdropWhile_append hlast, withoutTabs_append, withoutTabs_append, hself]
  simp [cleanBack]

theorem mem_of_mem_cleanBack (h : c ∈ cleanBack cs) : c ∈ cs :=
  (List.rdropWhile_prefix _ cs).subset (mem_of_mem_filter h)

theorem mem_of_mem_withoutTabs (h : c ∈ withoutTabs cs) : c ∈ cs :=
  mem_of_mem_filter h

theorem dropWhile_append_middle {front middle tail : List Char} (hne : middle ≠ [])
    (hprint : ∀ c ∈ middle, 0x20 < c.toNat) :
    (front ++ middle ++ tail).dropWhile isC0OrSpace =
      front.dropWhile isC0OrSpace ++ middle ++ tail := by
  induction front with
  | nil =>
    rw [nil_append, dropWhile_nil, nil_append]
    apply dropWhile_eq_self_of_head
    intro c hc
    rw [head?_append_of_ne_nil _ hne] at hc
    exact isC0OrSpace_eq_false.mpr (hprint c (mem_of_mem_head? hc))
  | cons c front ih =>
    rw [cons_append, cons_append, dropWhile_cons, dropWhile_cons]
    split_ifs
    · exact ih
    · rfl

theorem clean_append {front middle tail : List Char} (hne : middle ≠ [])
    (hprint : ∀ c ∈ middle, 0x20 < c.toNat) :
    clean (front ++ middle ++ tail) =
      withoutTabs (front.dropWhile isC0OrSpace) ++ middle ++ cleanBack tail := by
  have hlast : ∀ c ∈ (front.dropWhile isC0OrSpace ++ middle).getLast?, isC0OrSpace c = false := by
    intro c hc
    rw [getLast?_append_of_ne_nil _ hne] at hc
    exact isC0OrSpace_eq_false.mpr (hprint c (mem_of_getLast? hc))
  rw [clean, dropWhile_append_middle hne hprint, rdropWhile_append hlast, withoutTabs_append,
    withoutTabs_append, withoutTabs_eq_self hprint]
  rfl

variable {name : List Char}

theorem eq_of_isWebScheme (h : isWebScheme name = true) :
    name = "http".toList ∨ name = "https".toList := by
  simpa [isWebScheme] using h

theorem isSchemeChar_of_web (hname : isWebScheme (name.map Char.toLower) = true) (hc : c ∈ name) :
    isSchemeChar c = true ∧ isAsciiAlpha c = true := by
  have hlower : c.toLower ∈ "https".toList := by
    have hmem := mem_map_of_mem (f := Char.toLower) hc
    rcases eq_of_isWebScheme hname with heq | heq
    · have hshort : ∀ d ∈ "http".toList, d ∈ "https".toList := forall_mem_of_all (by decide)
      exact hshort _ (heq ▸ hmem)
    · exact heq ▸ hmem
  have halpha : isAsciiAlpha c = true :=
    (forall_mem_of_all (by decide) : ∀ d ∈ "https".toList, isAsciiLowercase d = true) _ hlower
  refine ⟨?_, halpha⟩
  have hrange := (forall_mem_of_all (by decide) :
    ∀ d ∈ "https".toList, 97 ≤ d.toNat ∧ d.toNat ≤ 122) _ hlower
  rw [toNat_toLower] at hrange
  have hletter : (97 ≤ c.toNat ∧ c.toNat ≤ 122) ∨ (65 ≤ c.toNat ∧ c.toNat ≤ 90) := by
    split at hrange <;> omega
  simp only [isSchemeChar, isAsciiAlphanumeric, isAsciiLowercase, IpAddr.char_le_iff,
    Char.reduceToNat, Bool.or_eq_true, Bool.and_eq_true, decide_eq_true_eq]
  tauto

theorem splitScheme_eq {name : List Char} (hname : isWebScheme (name.map Char.toLower) = true)
    (rest : List Char) :
    splitScheme (name ++ ':' :: rest) = some (name.map Char.toLower, rest) := by
  have hchars : ∀ c ∈ name, isSchemeChar c = true := fun c hc => (isSchemeChar_of_web hname hc).1
  have hdrop : (name ++ ':' :: rest).dropWhile isSchemeChar = ':' :: rest := by
    rw [dropWhile_append_of_pos hchars, dropWhile_cons_of_neg (by decide)]
  have htake : (name ++ ':' :: rest).takeWhile isSchemeChar = name := by
    rw [takeWhile_append_of_pos hchars, takeWhile_cons_of_neg (by decide),
      append_nil]
  have hhead : ((name ++ ':' :: rest).head?.map isAsciiAlpha).getD false = true := by
    cases name with
    | nil => cases hname
    | cons c name => exact (isSchemeChar_of_web hname mem_cons_self).2
  unfold splitScheme
  rw [hdrop, htake]
  exact if_pos hhead

theorem map_toLower_of_web (hname : isWebScheme name = true) : name.map Char.toLower = name := by
  rcases eq_of_isWebScheme hname with rfl | rfl <;> decide

theorem takeWhile_append_ends {front back : List Char}
    (hback : ∀ c ∈ back.head?, endsAuthority c = true) :
    (front ++ back).takeWhile (fun c => !endsAuthority c) =
      front.takeWhile fun c => !endsAuthority c := by
  induction front with
  | nil =>
    cases back with
    | nil => rfl
    | cons c back => simp [hback c rfl]
  | cons c front ih =>
    rw [cons_append, takeWhile_cons, takeWhile_cons, ih]

theorem not_slash_of_not_ends (h : endsAuthority c = false) : isSlash c = false := by
  simp only [endsAuthority, Bool.or_eq_false_iff] at h
  exact h.1.1

theorem authorityOf_eq {authority tail : List Char} (hne : authority ≠ [])
    (hchars : ∀ c ∈ authority, endsAuthority c = false)
    (htail : ∀ c ∈ tail.head?, endsAuthority c = true) :
    authorityOf ("//".toList ++ authority ++ tail) = authority := by
  obtain ⟨c, cs, rfl⟩ := exists_cons_of_ne_nil hne
  have hc := hchars c mem_cons_self
  have hslash := not_slash_of_not_ends hc
  have hdrop : ("//".toList ++ (c :: cs) ++ tail).dropWhile isSlash = (c :: cs) ++ tail := by
    show List.dropWhile isSlash ('/' :: '/' :: c :: (cs ++ tail)) = _
    rw [dropWhile_cons_of_pos (by decide), dropWhile_cons_of_pos (by decide),
      dropWhile_cons_of_neg (by simp [hslash])]
    rfl
  rw [authorityOf, hdrop, takeWhile_append_ends htail]
  exact List.takeWhile_eq_self_iff.mpr (by simpa using hchars)

theorem read_append {name authority tail : List Char} (hname : isWebScheme name = true)
    (hne : authority ≠ []) (hchars : ∀ c ∈ authority, 0x20 < c.toNat ∧ endsAuthority c = false)
    (htail : ∀ c ∈ tail.head?, endsAuthority c = true) :
    ∃ rest, splitScheme (clean (name ++ "://".toList ++ authority ++ tail)) = some (name, rest) ∧
      authorityOf rest = authority := by
  have hprint : ∀ c ∈ name ++ "://".toList ++ authority, 0x20 < c.toNat := by
    intro c hc
    rcases List.mem_append.mp hc with hscheme | hauthority
    · rcases eq_of_isWebScheme hname with rfl | rfl
      · have hvisible : ∀ c ∈ "http".toList ++ "://".toList, 0x20 < c.toNat :=
          forall_mem_of_all (by decide)
        exact hvisible c hscheme
      · have hvisible : ∀ c ∈ "https".toList ++ "://".toList, 0x20 < c.toNat :=
          forall_mem_of_all (by decide)
        exact hvisible c hscheme
    · exact (hchars c hauthority).1
  have hclean := @clean_append [] (name ++ "://".toList ++ authority) tail (by simp) hprint
  rw [nil_append, dropWhile_nil, withoutTabs_nil, nil_append] at hclean
  have hhead : ∀ c ∈ (cleanBack tail).head?, endsAuthority c = true := by
    cases tail with
    | nil => simp [cleanBack, withoutTabs]
    | cons d tail =>
      have hd := htail d rfl
      have hkept := @cleanBack_append [d] (by simpa using printable_of_endsAuthority hd) tail
      rw [singleton_append] at hkept
      rw [hkept]
      intro c hc
      cases hc
      exact hd
  have hsplit : splitScheme (name ++ "://".toList ++ authority ++ cleanBack tail) =
      some (name, "//".toList ++ authority ++ cleanBack tail) := by
    have hlower := map_toLower_of_web hname
    have hread := @splitScheme_eq name (by rw [hlower]; exact hname)
      ("//".toList ++ authority ++ cleanBack tail)
    rw [hlower] at hread
    simpa using hread
  exact ⟨"//".toList ++ authority ++ cleanBack tail, by rw [hclean, hsplit],
    authorityOf_eq hne (fun c hc => (hchars c hc).2) hhead⟩

theorem webHost_append {name authority tail : List Char} (hname : isWebScheme name = true)
    (hne : authority ≠ []) (hchars : ∀ c ∈ authority, 0x20 < c.toNat ∧ endsAuthority c = false)
    (htail : ∀ c ∈ tail.head?, endsAuthority c = true) :
    webHost (name ++ "://".toList ++ authority ++ tail) = some (hostText authority) := by
  obtain ⟨rest, hsplit, hauthority⟩ := read_append hname hne hchars htail
  rw [webHost, hsplit]
  dsimp only
  rw [if_pos hname, hauthority]

/-! ## Reading a text in pieces -/

theorem authorityOf_append {slashes user rest : List Char}
    (hslashes : ∀ c ∈ slashes, isSlash c = true) (huser : ∀ c ∈ user, endsAuthority c = false)
    (hrest : ∀ c ∈ rest.head?, isSlash c = false) :
    authorityOf (slashes ++ user ++ rest) = user ++ rest.takeWhile fun c => !endsAuthority c := by
  have hhead : ∀ c ∈ (user ++ rest).head?, isSlash c = false := by
    intro c hc
    cases user with
    | nil => exact hrest c hc
    | cons d user =>
      cases hc
      exact not_slash_of_not_ends (huser c mem_cons_self)
  have hdrop : (slashes ++ user ++ rest).dropWhile isSlash = user ++ rest := by
    rw [append_assoc, dropWhile_append_of_pos hslashes]
    exact dropWhile_eq_self_of_head hhead
  rw [authorityOf, hdrop, takeWhile_append_of_pos (by simpa using huser)]

theorem splitScheme_append {front rest after scheme : List Char} {c : Char}
    (hc : isSchemeChar c = false) (hcolon : c ≠ ':')
    (h : splitScheme (front ++ c :: rest) = some (scheme, after)) :
    ∃ name user, front = name ++ ':' :: user ∧ after = user ++ c :: rest := by
  have hdrop : (front ++ c :: rest).dropWhile isSchemeChar = ':' :: after := by
    unfold splitScheme at h
    split at h
    · rename_i rest' heq
      split_ifs at h
      cases h
      exact heq
    · cases h
  refine ⟨front.takeWhile isSchemeChar, (front.dropWhile isSchemeChar).tail, ?_⟩
  cases hfront : front.dropWhile isSchemeChar with
  | nil =>
    have hall : ∀ x ∈ front, isSchemeChar x = true := List.dropWhile_eq_nil_iff.mp hfront
    rw [dropWhile_append_of_pos hall, dropWhile_cons_of_neg (by simp [hc])] at hdrop
    cases hdrop
    exact absurd rfl hcolon
  | cons d front' =>
    have hcut : (front ++ c :: rest).dropWhile isSchemeChar = d :: front' ++ c :: rest := by
      rw [dropWhile_append, hfront]
      rfl
    rw [hcut] at hdrop
    cases hdrop
    refine ⟨?_, rfl⟩
    rw [tail_cons, ← hfront, takeWhile_append_dropWhile]

theorem splitScheme_head {cs scheme after : List Char} (h : splitScheme cs = some (scheme, after))
    (hweb : isWebScheme scheme = true) : ∃ c ∈ cs.head?, c.toLower = 'h' := by
  unfold splitScheme at h
  split at h
  · split_ifs at h with halpha
    cases h
    cases cs with
    | nil => simp at halpha
    | cons c cs =>
      refine ⟨c, rfl, ?_⟩
      rw [takeWhile_cons] at hweb
      split_ifs at hweb
      · rw [map_cons] at hweb
        rcases eq_of_isWebScheme hweb with heq | heq
        · exact (List.cons.inj (heq.trans (by decide : _ = ['h', 't', 't', 'p']))).1
        · exact (List.cons.inj (heq.trans (by decide : _ = ['h', 't', 't', 'p', 's']))).1
      · rcases eq_of_isWebScheme hweb with heq | heq <;> cases heq
  · cases h

theorem hostChars_append {cs : List Char} (hcolon : ':' ∉ cs) (hopen : '[' ∉ cs)
    (rest : List Char) : hostChars false (cs ++ rest) = cs ++ hostChars false rest := by
  induction cs with
  | nil => rfl
  | cons c cs ih =>
    rw [List.mem_cons, not_or] at hcolon hopen
    rw [cons_append, hostChars, if_neg (by simp [Ne.symm hcolon.1]),
      if_neg (Ne.symm hopen.1), ite_self, ih hcolon.2 hopen.2]
    rfl

theorem mem_of_mem_hostChars {inside : Bool} (h : c ∈ hostChars inside cs) : c ∈ cs := by
  induction cs generalizing inside with
  | nil => cases h
  | cons d cs ih =>
    rw [hostChars] at h
    split_ifs at h
    · cases h
    · rcases List.mem_cons.mp h with rfl | h
      · exact mem_cons_self
      · exact mem_cons_of_mem _ (ih h)
    · rcases List.mem_cons.mp h with rfl | h
      · exact mem_cons_self
      · exact mem_cons_of_mem _ (ih h)
    · rcases List.mem_cons.mp h with rfl | h
      · exact mem_cons_self
      · exact mem_cons_of_mem _ (ih h)

theorem hostChars_brackets {cs : List Char} (hclose : ']' ∉ cs) (rest : List Char) :
    hostChars false ('[' :: cs ++ ']' :: rest) = '[' :: cs ++ ']' :: hostChars false rest := by
  have hinside : hostChars true (cs ++ ']' :: rest) = cs ++ ']' :: hostChars false rest := by
    induction cs with
    | nil => rfl
    | cons c cs ih =>
      rw [List.mem_cons, not_or] at hclose
      rw [cons_append, hostChars, if_neg (by simp), if_neg (Ne.symm hclose.1), ite_self,
        ih hclose.2]
      rfl
  rw [cons_append, hostChars, if_neg (by simp), if_pos rfl, hinside]
  rfl

/-! ## Plain hosts

Host rules without percent signs and international names, and a parser that keeps the text
of a URL as it stands behind the authority.
-/

def plainHost : List Char → Option Host
  | '[' :: rest =>
    if rest.getLast? = some ']' then
      match IpAddr.parseIp rest.dropLast with
      | some (.v6 groups) => some (.ip (.v6 groups))
      | _ => none
    else none
  | cs =>
    if cs = [] ∨ cs.any isWhitespace then none
    else
      match IpAddr.parseIp cs with
      | some (.v4 a b c d) => some (.ip (.v4 a b c d))
      | _ => some (.domain (String.ofList (cs.map Char.toLower)))

theorem plainHost_eq {cs : List Char} (hopen : ∀ c ∈ cs.head?, c ≠ '[') : plainHost cs =
    if cs = [] ∨ cs.any isWhitespace then none
    else
      match IpAddr.parseIp cs with
      | some (.v4 a b c d) => some (.ip (.v4 a b c d))
      | _ => some (.domain (String.ofList (cs.map Char.toLower))) := by
  unfold plainHost
  split
  · exact absurd rfl (hopen '[' rfl)
  · rfl

theorem not_white_of_parseIp {ip : IpAddr} (h : IpAddr.parseIp cs = some ip) :
    ∀ c ∈ cs, isWhitespace c = false := by
  intro c hc
  have hbounds := IpAddr.ipChar_bounds ((IpAddr.parseIp_chars h).2 c hc)
  rw [← Bool.not_eq_true]
  intro hwhite
  simp only [isWhitespace, Bool.or_eq_true, Bool.and_eq_true, decide_eq_true_eq, beq_iff_eq]
    at hwhite
  omega

theorem plainHost_name {cs : List Char} (h : cs.map Char.toLower = "localhost".toList) :
    plainHost cs = some (.domain "localhost") := by
  have hlower : ∀ c ∈ cs, c.toLower ∈ "localhost".toList :=
    fun c hc => h ▸ mem_map_of_mem hc
  have hopen : ∀ c ∈ cs.head?, c ≠ '[' := by
    rintro c hc rfl
    exact absurd (hlower _ (mem_of_mem_head? hc)) (by decide)
  have hplain : ¬ (cs = [] ∨ cs.any isWhitespace = true) := by
    rintro (rfl | hany)
    · cases h
    · obtain ⟨c, hc, hwhite⟩ := List.any_eq_true.mp hany
      have hfalse : ∀ d ∈ "localhost".toList, isWhitespace d = false :=
        forall_mem_of_all (by decide)
      rw [← isWhitespace_toLower, hfalse _ (hlower c hc)] at hwhite
      cases hwhite
  have hip : IpAddr.parseIp cs = none := by
    rw [← IpAddr.parseIp_toLower, h]
    decide
  rw [plainHost_eq hopen, if_neg hplain, hip, h]
  rfl

theorem plainHost_ipv4 {cs : List Char} {a b c d : Nat}
    (h : IpAddr.parseIp cs = some (.v4 a b c d)) : plainHost cs = some (.ip (.v4 a b c d)) := by
  obtain ⟨hne, hchars⟩ := IpAddr.parseIp_chars h
  have hopen : ∀ c ∈ cs.head?, c ≠ '[' := by
    rintro c hc rfl
    exact absurd (hchars _ (mem_of_mem_head? hc)) (by decide)
  have hplain : ¬ (cs = [] ∨ cs.any isWhitespace = true) := by
    rintro (rfl | hany)
    · exact hne rfl
    · obtain ⟨c, hc, hwhite⟩ := List.any_eq_true.mp hany
      rw [not_white_of_parseIp h c hc] at hwhite
      cases hwhite
  rw [plainHost_eq hopen, if_neg hplain, h]

theorem plainHost_brackets {cs : List Char} {host : Host} (h : plainHost ('[' :: cs) = some host) :
    ∃ addr groups, cs = addr ++ [']'] ∧ IpAddr.parseIp addr = some (.v6 groups) ∧
      host = .ip (.v6 groups) := by
  simp only [plainHost] at h
  split_ifs at h with hlast
  split at h
  · rename_i groups hgroups
    cases h
    exact ⟨cs.dropLast, groups, (dropLast_append_getLast? _ hlast).symm, hgroups, rfl⟩
  · cases h

theorem plainHost_white {cs : List Char} {c : Char} (hc : c ∈ cs) (hwhite : isWhitespace c = true) :
    plainHost cs = none := by
  by_cases hopen : ∀ d ∈ cs.head?, d ≠ '['
  · rw [plainHost_eq hopen, if_pos (.inr (List.any_eq_true.mpr ⟨c, hc, hwhite⟩))]
  · cases cs with
    | nil => cases hc
    | cons d rest =>
      have hd : d = '[' := by simpa using hopen
      subst hd
      cases hhost : plainHost ('[' :: rest) with
      | none => rfl
      | some host =>
        obtain ⟨addr, groups, rfl, hgroups, -⟩ := plainHost_brackets hhost
        simp only [List.mem_cons, List.mem_append, List.not_mem_nil, or_false] at hc
        rcases hc with rfl | hc | rfl
        · exact absurd hwhite (by decide)
        · rw [not_white_of_parseIp hgroups c hc] at hwhite
          cases hwhite
        · exact absurd hwhite (by decide)

def HostRules.plain : HostRules where
  parse := plainHost
  localhost _ h := plainHost_name h
  ipv4 _ _ _ _ _ h := plainHost_ipv4 h
  brackets _ _ h := plainHost_brackets h
  white := fun _ ⟨_, hc, hwhite⟩ => plainHost_white hc hwhite

structure PlainUrl where
  scheme : List Char
  authority : List Char
  tail : List Char
  host : Host
deriving DecidableEq

def PlainUrl.parse (s : String) : Option PlainUrl :=
  match splitScheme (clean s.toList) with
  | none => none
  | some (scheme, rest) =>
    let authority := authorityOf rest
    let tail := (rest.dropWhile isSlash).dropWhile fun c => !endsAuthority c
    let tail := if (tail.head?.map isSlash).getD false then tail.tail else tail
    if isWebScheme scheme && authority.all fun c => decide (0x20 < c.toNat) then
      (plainHost (hostText authority)).map fun host => { scheme, authority, tail, host }
    else none

def UrlParser.plain : UrlParser where
  Url := PlainUrl
  parse := PlainUrl.parse
  scheme url := String.ofList url.scheme
  host url := some url.host
  asStr url := String.ofList (url.scheme ++ "://".toList ++ url.authority ++ '/' :: url.tail)

theorem PlainUrl.parse_eq_some {s : String} {url : PlainUrl} (h : PlainUrl.parse s = some url) :
    isWebScheme url.scheme = true ∧ webHost s.toList = some (hostText url.authority) ∧
      plainHost (hostText url.authority) = some url.host ∧
      ∀ c ∈ url.authority, 0x20 < c.toNat ∧ endsAuthority c = false := by
  unfold PlainUrl.parse at h
  split at h
  · cases h
  · rename_i scheme rest hsplit
    dsimp only at h
    split_ifs at h with hgood
    all_goals
      obtain ⟨host, hhost, rfl⟩ := Option.map_eq_some_iff.mp h
      simp only [Bool.and_eq_true, all_eq_true, decide_eq_true_eq] at hgood
      refine ⟨hgood.1, ?_, hhost, ?_⟩
      · rw [webHost, hsplit]
        exact if_pos hgood.1
      · intro c hc
        refine ⟨hgood.2 c hc, ?_⟩
        simpa using mem_takeWhile_imp hc

theorem PlainUrl.parse_written {scheme authority rest : List Char} {host : Host}
    (hscheme : isWebScheme scheme = true) (hhost : plainHost (hostText authority) = some host)
    (hchars : ∀ c ∈ authority, 0x20 < c.toNat ∧ endsAuthority c = false) :
    (PlainUrl.parse (String.ofList (scheme ++ "://".toList ++ authority ++ '/' :: rest))).isSome =
      true := by
  have hne : authority ≠ [] := by
    rintro rfl
    cases hhost
  obtain ⟨after, hsplit, hauthority⟩ :=
    @read_append scheme authority ('/' :: rest) hscheme hne hchars (by simp; decide)
  have hgood : (isWebScheme scheme && (authorityOf after).all fun c => decide (0x20 < c.toNat)) =
      true := by
    rw [hauthority, hscheme, Bool.true_and, all_eq_true]
    intro c hc
    exact decide_eq_true (hchars c hc).1
  unfold PlainUrl.parse
  rw [String.toList_ofList, hsplit]
  dsimp only
  rw [if_pos hgood, hauthority, hhost]
  rfl

theorem UrlParser.plain_standard : UrlParser.plain.Standard HostRules.plain where
  host_eq s url h _ := by
    obtain ⟨-, hweb, hhost, -⟩ := PlainUrl.parse_eq_some h
    exact ⟨_, hweb, hhost.symm⟩
  host_isSome _ _ _ _ := rfl
  scheme_eq s url h _ := by
    show isWebScheme (String.ofList url.scheme).toList = true
    rw [String.toList_ofList]
    exact (PlainUrl.parse_eq_some h).1
  written s url h _ := by
    obtain ⟨hscheme, -, hhost, hchars⟩ := PlainUrl.parse_eq_some h
    have hne : url.authority ≠ [] := by
      intro hnil
      rw [hnil] at hhost
      cases hhost
    have hname : (UrlParser.plain.scheme url).toList = url.scheme := String.toList_ofList
    refine ⟨url.authority, url.tail, ?_, hne, hchars, hhost, ?_⟩
    · rw [hname]
      exact String.toList_ofList
    · intro rest
      have hparse := @PlainUrl.parse_written _ _ rest _ hscheme hhost hchars
      rw [hname]
      exact hparse

end GenieClaw.Library.Web
