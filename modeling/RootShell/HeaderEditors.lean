import RootShell.KeyedTables
import RootShell.MessageRewrites

/-!
The header rules on HTTP/1 header lists and on net/http headers, which keep the values of a
field under the canonical spelling of its name (vpntunnel/rewrite.go).
-/
namespace HeaderEditors
open ByteLines ByteText HeaderLists MessageRewrites KeyedTables

variable {s a t b value j k : Bytes} {hs : List Hdr}

section Spelling

def isToken (b : UInt8) : Bool :=
  (48 ≤ b && b ≤ 57) || (65 ≤ b && b ≤ 90) || (97 ≤ b && b ≤ 122) || (text "!#$%&'*+-.^_`|~").contains b

def Token (s : Bytes) : Prop := s.all isToken = true

def canonByte (upper : Bool) (b : UInt8) : UInt8 :=
  if upper && 97 ≤ b && b ≤ 122 then b - 32 else if !upper && 65 ≤ b && b ≤ 90 then b + 32 else b

def canonLoop : Bool → Bytes → Bytes
  | _, [] => []
  | upper, b :: bs => canonByte upper b :: canonLoop (canonByte upper b == 45) bs

/-- textproto.CanonicalMIMEHeaderKey: the first letter and every letter behind a hyphen
    upper case, the others lower case. -/
def canonicalHeaderKey (s : Bytes) : Bytes := if s.all isToken then canonLoop true s else s

theorem token_small (b : UInt8) (token : isToken b = true) : b < 0x80 := by
  have marks : ∀ m ∈ text "!#$%&'*+-.^_`|~", m < 0x80 := by decide +kernel
  simp only [isToken, Bool.or_eq_true, Bool.and_eq_true, decide_eq_true_eq, List.contains_iff_mem] at token
  rcases token with ((digit | upper) | lower) | mark
  · exact UInt8.lt_of_le_of_lt digit.2 (by decide)
  · exact UInt8.lt_of_le_of_lt upper.2 (by decide)
  · exact UInt8.lt_of_le_of_lt lower.2 (by decide)
  · exact marks b mark

theorem canon_byte_cases (upper : Bool) (b : UInt8) :
    (97 ≤ b ∧ b ≤ 122) ∧ canonByte upper b = b - 32 ∨ (65 ≤ b ∧ b ≤ 90) ∧ canonByte upper b = b + 32 ∨
      canonByte upper b = b := by
  unfold canonByte
  grind

theorem token_canon (upper : Bool) (b : UInt8) (token : isToken b = true) : isToken (canonByte upper b) = true := by
  rcases canon_byte_cases upper b with ⟨lower, canon⟩ | ⟨higher, canon⟩ | canon
  · have letter : 65 ≤ b - 32 ∧ b - 32 ≤ 90 := by grind
    simp [canon, isToken, letter]
  · have letter : 97 ≤ b + 32 ∧ b + 32 ≤ 122 := by grind
    simp [canon, isToken, letter]
  · rwa [canon]

theorem canon_byte_fold (upper : Bool) (b : UInt8) : lowerAscii (canonByte upper b).toNat = lowerAscii b.toNat := by
  unfold lowerAscii
  rcases canon_byte_cases upper b with ⟨lower, canon⟩ | ⟨higher, canon⟩ | canon
  · rw [canon, UInt8.toNat_sub_of_le b 32 (by grind)]
    simp only [UInt8.le_iff_toNat_le, UInt8.reduceToNat] at lower ⊢
    rw [if_pos (by omega), if_neg (by omega)]
    omega
  · rw [canon, UInt8.toNat_add]
    simp only [UInt8.le_iff_toNat_le, UInt8.reduceToNat] at higher ⊢
    rw [if_neg (by omega), if_pos (by omega)]
    omega
  · rw [canon]

theorem canon_byte_lower (upper : Bool) (b : UInt8) :
    canonByte upper b = canonByte upper (UInt8.ofNat (lowerAscii b.toNat)) := by
  unfold lowerAscii
  split
  · rename_i range
    have higher : 65 ≤ b ∧ b ≤ 90 := by simpa [UInt8.le_iff_toNat_le] using range
    have lowered : UInt8.ofNat (b.toNat + 32) = b + 32 := by simp [UInt8.ofNat_add]
    rw [lowered]
    unfold canonByte
    grind
  · rw [UInt8.ofNat_toNat]

theorem canon_loop_fold (s : Bytes) (upper : Bool) :
    (canonLoop upper s).map (fun b => lowerAscii b.toNat) = s.map fun b => lowerAscii b.toNat := by
  induction s generalizing upper with
  | nil => rfl
  | cons b s ih => simp only [canonLoop, List.map_cons, canon_byte_fold, ih]

theorem canon_loop_alike (upper : Bool)
    (alike : s.map (fun b => lowerAscii b.toNat) = t.map fun b => lowerAscii b.toNat) :
    canonLoop upper s = canonLoop upper t := by
  induction s generalizing t upper with
  | nil =>
    cases t with
    | nil => rfl
    | cons c t => cases alike
  | cons b s ih =>
    cases t with
    | nil => cases alike
    | cons c t =>
      simp only [List.map_cons, List.cons.injEq] at alike
      have first : canonByte upper b = canonByte upper c := by
        rw [canon_byte_lower, alike.1, ← canon_byte_lower]
      simp only [canonLoop, first, ih _ alike.2]

theorem canon_loop_token (token : Token s) (upper : Bool) : Token (canonLoop upper s) := by
  induction s generalizing upper with
  | nil => rfl
  | cons b s ih =>
    simp only [Token, List.all_cons, Bool.and_eq_true] at token ih
    simp only [Token, canonLoop, List.all_cons, Bool.and_eq_true]
    exact ⟨token_canon upper b token.1, ih token.2 _⟩

theorem token_fold {u : CaseTables} (token : Token s) : foldKey u s = s.map fun b => lowerAscii b.toNat :=
  fold_key_ascii fun b member => token_small b (List.all_eq_true.1 token b member)

theorem canonical_token (token : Token s) : canonicalHeaderKey s = canonLoop true s :=
  if_pos token

theorem canonical_fold {u : CaseTables} (token : Token s) : foldKey u (canonicalHeaderKey s) = foldKey u s := by
  rw [canonical_token token, token_fold (canon_loop_token token true), token_fold token, canon_loop_fold]

theorem canonical_eq_iff {u : CaseTables} (token : Token s) (token' : Token t) :
    canonicalHeaderKey s = canonicalHeaderKey t ↔ foldKey u s = foldKey u t := by
  constructor
  · intro same
    rw [← canonical_fold token, same, canonical_fold token']
  · intro alike
    rw [token_fold token, token_fold token'] at alike
    rw [canonical_token token, canonical_token token', canon_loop_alike true alike]

end Spelling

section Editors
variable {H : Type}

structure HeaderEditor (H : Type) where
  add : H → Bytes → Bytes → H
  set : H → Bytes → Bytes → H
  del : H → Bytes → H

def hdrListEditor (u : CaseTables) : HeaderEditor (List Hdr) := ⟨HeaderLists.add, HeaderLists.set u, HeaderLists.del u⟩

abbrev Header := Table Bytes (List Bytes)

def headerAdd (h : Header) (name value : Bytes) : Header :=
  h.insert (canonicalHeaderKey name) ((h.lookup (canonicalHeaderKey name)).getD [] ++ [value])

def headerSet (h : Header) (name value : Bytes) : Header := h.insert (canonicalHeaderKey name) [value]

def headerDel (h : Header) (name : Bytes) : Header := h.erase (canonicalHeaderKey name)

def httpHeaderEditor : HeaderEditor Header := ⟨headerAdd, headerSet, headerDel⟩

def headerOf (hs : List Hdr) : Header := hs.foldl (fun h x => headerAdd h x.name x.value) ∅

def editsHeaders (c : CompiledRewrite) : Bool :=
  c.rule.action = .addHeader ∨ c.rule.action = .setHeader ∨ c.rule.action = .removeHeader

def editHeader (e : HeaderEditor H) (out : H × List Bytes) (c : CompiledRewrite) : H × List Bytes :=
  match c.rule.action with
  | .addHeader => (e.add out.1 c.rule.header c.rule.value, out.2 ++ [c.rule.id])
  | .setHeader => (e.set out.1 c.rule.header c.rule.value, out.2 ++ [c.rule.id])
  | .removeHeader => (e.del out.1 c.rule.header, out.2 ++ [c.rule.id])
  | _ => out

def editHeaders (e : HeaderEditor H) (rules : List CompiledRewrite) (h : H) : H × List Bytes :=
  rules.foldl (editHeader e) (h, [])

theorem edit_list_step (u : CaseTables) (c : CompiledRewrite) (hs : List Hdr) (ids : List Bytes) :
    editHeader (hdrListEditor u) (hs, ids) c =
      (applyHeaderRewrite u c.rule hs, if editsHeaders c then ids ++ [c.rule.id] else ids) := by
  unfold editHeader applyHeaderRewrite editsHeaders
  cases c.rule.action <;> rfl

theorem edit_lists_from (u : CaseTables) (rules : List CompiledRewrite) (hs : List Hdr) (ids : List Bytes) :
    rules.foldl (editHeader (hdrListEditor u)) (hs, ids) =
      ((applyHeaderRewrites u rules hs).1, ids ++ (applyHeaderRewrites u rules hs).2) := by
  induction rules generalizing hs ids with
  | nil => simp [applyHeaderRewrites]
  | cons c rules ih =>
    rw [List.foldl_cons, edit_list_step, ih]
    by_cases edits : editsHeaders c = true
    · have head := of_decide_eq_true edits
      simp [applyHeaderRewrites, edits, List.filter_cons_of_pos, head]
    · have head := of_decide_eq_false (Bool.eq_false_iff.2 edits)
      simp [applyHeaderRewrites, edits, List.filter_cons_of_neg, head]

theorem edit_lists (u : CaseTables) (rules : List CompiledRewrite) (hs : List Hdr) :
    editHeaders (hdrListEditor u) rules hs = applyHeaderRewrites u rules hs :=
  edit_lists_from u rules hs []

structure InStep {A B : Type} (R : A → B → Prop) (names : Bytes → Prop) (e : HeaderEditor A) (f : HeaderEditor B) :
    Prop where
  add : ∀ a b name value, names name → R a b → R (e.add a name value) (f.add b name value)
  set : ∀ a b name value, names name → R a b → R (e.set a name value) (f.set b name value)
  del : ∀ a b name, names name → R a b → R (e.del a name) (f.del b name)

theorem edit_header_in_step {A B : Type} {R : A → B → Prop} {names : Bytes → Prop} {e : HeaderEditor A}
    {f : HeaderEditor B} (step : InStep R names e f) {c : CompiledRewrite}
    (named : editsHeaders c = true → names c.rule.header) {a : A} {b : B} (related : R a b) (ids : List Bytes) :
    R (editHeader e (a, ids) c).1 (editHeader f (b, ids) c).1 ∧
      (editHeader e (a, ids) c).2 = (editHeader f (b, ids) c).2 := by
  unfold editHeader
  cases action : c.rule.action with
  | addHeader => exact ⟨step.add _ _ _ _ (named (by simp [editsHeaders, action])) related, rfl⟩
  | setHeader => exact ⟨step.set _ _ _ _ (named (by simp [editsHeaders, action])) related, rfl⟩
  | removeHeader => exact ⟨step.del _ _ _ (named (by simp [editsHeaders, action])) related, rfl⟩
  | replaceBody => exact ⟨related, rfl⟩
  | other => exact ⟨related, rfl⟩

theorem edit_headers_in_step {A B : Type} {R : A → B → Prop} {names : Bytes → Prop} {e : HeaderEditor A}
    {f : HeaderEditor B} (step : InStep R names e f) {rules : List CompiledRewrite}
    (named : ∀ c ∈ rules, editsHeaders c = true → names c.rule.header) (out : A × List Bytes) (out' : B × List Bytes)
    (related : R out.1 out'.1) (ids : out.2 = out'.2) :
    R (rules.foldl (editHeader e) out).1 (rules.foldl (editHeader f) out').1 ∧
      (rules.foldl (editHeader e) out).2 = (rules.foldl (editHeader f) out').2 := by
  induction rules generalizing out out' with
  | nil => exact ⟨related, ids⟩
  | cons c rules ih =>
    obtain ⟨a, left⟩ := out
    obtain ⟨b, right⟩ := out'
    cases ids
    obtain ⟨next, ids'⟩ := edit_header_in_step step (named c (by simp)) related left
    exact ih (fun d member => named d (by simp [member])) _ _ next ids'

end Editors

section Values
variable {u : CaseTables}

def valuesOf (u : CaseTables) (hs : List Hdr) (name : Bytes) : List Bytes := (fields u hs name).map Hdr.value

theorem values_add (hs : List Hdr) (a value b : Bytes) :
    valuesOf u (HeaderLists.add hs a value) b =
      if equalFold u a b then valuesOf u hs b ++ [value] else valuesOf u hs b := by
  simp only [valuesOf, fields, HeaderLists.add, List.filter_append, List.map_append]
  split
  · rename_i alike
    have here : named u b ⟨a, value⟩ = true := alike
    simp [here]
  · rename_i other
    have gone : named u b ⟨a, value⟩ = false := Bool.eq_false_iff.2 other
    simp [gone]

theorem values_set (hs : List Hdr) (a value b : Bytes) :
    valuesOf u (HeaderLists.set u hs a value) b = if equalFold u a b then [value] else valuesOf u hs b := by
  split
  · rename_i alike
    have same := fields_set_values (u := u) hs a value
    rwa [fields, named_alike alike] at same
  · rename_i other
    rw [valuesOf, fields_set_other (Bool.eq_false_iff.2 other), valuesOf]

theorem values_del (hs : List Hdr) (a b : Bytes) :
    valuesOf u (HeaderLists.del u hs a) b = if equalFold u a b then [] else valuesOf u hs b := by
  split
  · rename_i alike
    have none := fields_del_self (u := u) hs a
    rw [fields, named_alike alike] at none
    rw [valuesOf, fields, none, List.map_nil]
  · rename_i other
    rw [valuesOf, fields_del_other (Bool.eq_false_iff.2 other), valuesOf]

theorem set_names (hs : List Hdr) (a value : Bytes) :
    ∀ x ∈ HeaderLists.set u hs a value, x.name = a ∨ x.name ∈ hs.map Hdr.name := by
  intro x member
  have old : ∀ y ∈ setLoop u a value false hs, y.name ∈ hs.map Hdr.name := fun y inside =>
    (set_loop_names a value false hs).subset (List.mem_map_of_mem inside)
  unfold HeaderLists.set at member
  split at member
  · exact Or.inr (old x member)
  · rcases List.mem_append.1 member with inside | last
    · exact Or.inr (old x inside)
    · rw [List.mem_singleton.1 last]
      exact Or.inl rfl

end Values

variable {h : Header}

section Agreement
variable {u : CaseTables}

def filled (values : List Bytes) : Option (List Bytes) := if values = [] then none else some values

theorem filled_get (values : List Bytes) : (filled values).getD [] = values := by
  unfold filled
  split
  · rename_i none
    exact none.symm
  · rfl

structure Agree (u : CaseTables) (hs : List Hdr) (h : Header) : Prop where
  names : ∀ x ∈ hs, Token x.name
  keys : ∀ k ∈ h, ∃ name, Token name ∧ canonicalHeaderKey name = k
  values : ∀ name, Token name → h.lookup (canonicalHeaderKey name) = filled (valuesOf u hs name)

theorem agree_nil : Agree u [] ∅ := ⟨by simp, by simp, fun _ _ => rfl⟩

theorem same_field_iff (token : Token a) (token' : Token b) :
    canonicalHeaderKey b = canonicalHeaderKey a ↔ equalFold u a b = true := by
  rw [eq_comm, canonical_eq_iff token token' (u := u)]
  simp [equalFold]

theorem agree_insert {hs' : List Hdr} {values : List Bytes} (token : Token a)
    (agree : Agree u hs h) (names : ∀ x ∈ hs', x.name = a ∨ x.name ∈ hs.map Hdr.name) (some : values ≠ [])
    (written : ∀ b, valuesOf u hs' b = if equalFold u a b then values else valuesOf u hs b) :
    Agree u hs' (h.insert (canonicalHeaderKey a) values) := by
  constructor
  · intro x member
    rcases names x member with new | old
    · exact new ▸ token
    · obtain ⟨y, inside, same⟩ := List.mem_map.1 old
      exact same ▸ agree.names y inside
  · intro k member
    rcases (AList.mem_insert h).1 member with new | old
    · exact ⟨a, token, new.symm⟩
    · exact agree.keys k old
  · intro b token'
    rw [written b]
    by_cases alike : equalFold u a b = true
    · rw [(same_field_iff token token').2 alike, AList.lookup_insert, if_pos alike, filled, if_neg some]
    · have other := mt (same_field_iff (u := u) token token').1 alike
      rw [AList.lookup_insert_ne other, if_neg alike]
      exact agree.values b token'

theorem agree_add (token : Token a) (agree : Agree u hs h) :
    Agree u (HeaderLists.add hs a value) (headerAdd h a value) := by
  unfold headerAdd
  rw [agree.values a token, filled_get]
  refine agree_insert token agree ?_ (by simp) ?_
  · intro x member
    rcases List.mem_append.1 member with inside | last
    · exact Or.inr (List.mem_map_of_mem inside)
    · rw [List.mem_singleton.1 last]
      exact Or.inl rfl
  · intro b
    rw [values_add]
    split
    · rename_i alike
      rw [valuesOf, valuesOf, fields, fields, named_alike alike]
    · rfl

theorem agree_set (token : Token a) (agree : Agree u hs h) :
    Agree u (HeaderLists.set u hs a value) (headerSet h a value) :=
  agree_insert token agree (set_names hs a value) (by simp) (values_set hs a value)

theorem agree_del (token : Token a) (agree : Agree u hs h) : Agree u (HeaderLists.del u hs a) (headerDel h a) := by
  constructor
  · exact fun x member => agree.names x (List.mem_of_mem_filter member)
  · exact fun k member => agree.keys k (AList.mem_erase.1 member).2
  · intro b token'
    rw [values_del, headerDel]
    by_cases alike : equalFold u a b = true
    · rw [(same_field_iff token token').2 alike, AList.lookup_erase, if_pos alike]
      rfl
    · have other := mt (same_field_iff (u := u) token token').1 alike
      rw [AList.lookup_erase_ne other, if_neg alike]
      exact agree.values b token'

theorem editors_in_step : InStep (Agree u) Token (hdrListEditor u) httpHeaderEditor :=
  ⟨fun _ _ _ _ => agree_add, fun _ _ _ _ => agree_set, fun _ _ _ => agree_del⟩

theorem agree_header_of (names : ∀ x ∈ hs, Token x.name) : Agree u hs (headerOf hs) := by
  suffices step : ∀ (front : List Hdr) (h : Header), Agree u front h →
      Agree u (front ++ hs) (hs.foldl (fun h x => headerAdd h x.name x.value) h) by
    exact step [] ∅ agree_nil
  induction hs with
  | nil =>
    intro front h agree
    simpa using agree
  | cons x hs ih =>
    intro front h agree
    have added : Agree u (front ++ [x]) (headerAdd h x.name x.value) := agree_add (names x (by simp)) agree
    have next := ih (fun y member => names y (by simp [member])) (front ++ [x]) _ added
    simpa using next

end Agreement

section Reading
variable {u : CaseTables}

def readList (u : CaseTables) (hs : List Hdr) (key : List Nat) : Option (List Bytes) :=
  filled ((hs.filter fun x => foldKey u x.name = key).map Hdr.value)

def readHeader (u : CaseTables) (h : Header) (key : List Nat) : Option (List Bytes) :=
  (h.keys.find? fun k => foldKey u k = key).bind fun k => h.lookup k

theorem read_list_name (hs : List Hdr) (name : Bytes) :
    readList u hs (foldKey u name) = filled (valuesOf u hs name) := by
  have same : (fun x : Hdr => decide (foldKey u x.name = foldKey u name)) = named u name := by
    funext x
    rw [named, equalFold, beq_eq_decide]
  rw [readList, same, valuesOf, fields]

theorem keys_folded (agree : Agree u hs h) (member : j ∈ h)
    (member' : k ∈ h) (alike : foldKey u j = foldKey u k) : j = k := by
  obtain ⟨a, token, rfl⟩ := agree.keys j member
  obtain ⟨b, token', rfl⟩ := agree.keys k member'
  rw [canonical_fold token, canonical_fold token'] at alike
  exact (canonical_eq_iff token token').2 alike

theorem agree_read (agree : Agree u hs h) (key : List Nat) : readHeader u h key = readList u hs key := by
  cases found : h.keys.find? (fun k => foldKey u k = key) with
  | some k =>
    obtain ⟨name, token, rfl⟩ := agree.keys k (List.mem_of_find?_eq_some found)
    have here : foldKey u (canonicalHeaderKey name) = key := by simpa using List.find?_some found
    rw [canonical_fold token] at here
    rw [← here, read_list_name, readHeader, here, found]
    exact agree.values name token
  | none =>
    rw [readHeader, found]
    symm
    refine if_pos (List.map_eq_nil_iff.2 (List.filter_eq_nil_iff.2 fun x member here => ?_))
    have token := agree.names x member
    have values := agree.values x.name token
    have inside : x ∈ fields u hs x.name := List.mem_filter.2 ⟨member, named_refl x.name x.value⟩
    rw [filled, if_neg (by simp [valuesOf]; exact List.ne_nil_of_mem inside)] at values
    have key' : canonicalHeaderKey x.name ∈ h.keys := AList.lookup_isSome.1 (by rw [values]; rfl)
    refine List.find?_eq_none.1 found _ key' ?_
    rw [canonical_fold token]
    exact here

/-- The rules leave the same values under the same folded names in a header list and in
    the net/http header of the same fields, and name the same rules as applied. -/
theorem header_rewrites_agree (rules : List CompiledRewrite) (hs : List Hdr) (names : ∀ x ∈ hs, Token x.name)
    (ruleNames : ∀ c ∈ rules, editsHeaders c = true → Token c.rule.header) :
    let listed := applyHeaderRewrites u rules hs
    let mapped := editHeaders httpHeaderEditor rules (headerOf hs)
    readHeader u mapped.1 = readList u listed.1 ∧ (mapped.1.keys.map (foldKey u)).Nodup ∧ mapped.2 = listed.2 := by
  intro listed mapped
  have first : Agree u hs (headerOf hs) := agree_header_of names
  obtain ⟨agree, ids⟩ := edit_headers_in_step editors_in_step ruleNames (hs, []) (headerOf hs, []) first rfl
  have edited : rules.foldl (editHeader (hdrListEditor u)) (hs, []) = listed := edit_lists u rules hs
  rw [edited] at agree ids
  refine ⟨funext (agree_read agree), ?_, ids.symm⟩
  exact List.Nodup.map_on (fun j member k member' => keys_folded agree member member') mapped.1.keys_nodup

def headerRule (action : Action) (id header value : Bytes) : CompiledRewrite where
  rule := ⟨id, true, [], false, .request, action, header, value, [0], [], false⟩
  glob := []
  urlRe := none
  bodyRe := none
  finds := fun _ => List.cons_ne_nil _ _

def cookieFields : List Hdr :=
  [⟨text "cookie", text "a=1"⟩, ⟨text "Accept", text "*/*"⟩, ⟨text "COOKIE", text "b=2"⟩, ⟨text "x-id", text "7"⟩]

def cookieRules : List CompiledRewrite :=
  [headerRule .setHeader (text "r1") (text "Cookie") (text "c=3"),
    headerRule .addHeader (text "r2") (text "cookie") (text "d=4"),
    headerRule .removeHeader (text "r3") (text "X-ID") []]

theorem cookie_rewrites_agree :
    readHeader latinTables (editHeaders httpHeaderEditor cookieRules (headerOf cookieFields)).1 =
      readList latinTables (applyHeaderRewrites latinTables cookieRules cookieFields).1 ∧
    readList latinTables (applyHeaderRewrites latinTables cookieRules cookieFields).1
      (foldKey latinTables (text "Cookie")) = some [text "c=3", text "d=4"] := by
  have names : ∀ x ∈ cookieFields, Token x.name := by
    unfold Token
    decide +kernel
  have ruleNames : ∀ c ∈ cookieRules, editsHeaders c = true → Token c.rule.header := by
    unfold Token
    decide +kernel
  exact ⟨(header_rewrites_agree cookieRules cookieFields names ruleNames).1, by decide +kernel⟩

end Reading

end HeaderEditors
