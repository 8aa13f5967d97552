import Uncworks.Go.Strings

/-!
# Go paths

`filepath.Clean` on Unix, and when one path lies below another.  A path is resolved name by name:
an empty name and `.` stay, `..` takes back the name before it.  The names that are left are the
elements of the path; a relative path may keep a run of `..` at its front.
-/

namespace Go

open List

section

variable (path : String)

def isAbs : Bool := hasPrefix path "/"

def follow (abs : Bool) (dir : List String) (name : String) : List String :=
  if name = "" ∨ name = "." then dir
  else if name = ".." then
    if dir = [] then (if abs then [] else [".."])
    else if dir.getLast? = some ".." then dir ++ [".."]
    else dir.dropLast
  else dir ++ [name]

def resolve (abs : Bool) (dir names : List String) : List String := names.foldl (follow abs) dir

def elements : List String := resolve (isAbs path) [] (split '/' path)

def relElements : List String := resolve false [] (split '/' path)

def clean : String :=
  if isAbs path then "/" ++ "/".intercalate (elements path)
  else if elements path = [] then "."
  else "/".intercalate (elements path)

/-- `path.Dir`: all but what follows the last slash, cleaned. -/
def pathDir : String := clean (String.ofList (path.toList.reverse.dropWhile (· ≠ '/')).reverse)

end

def joinPath (parts : List String) : String := clean ("/".intercalate (parts.filter (· ≠ "")))

example : clean "a/./b//../c/" = "a/c" := by decide

example : joinPath ["/workspace", ".bare", ".."] = "/workspace" := by decide

/-! ## Splitting -/

variable {sep : Char}

theorem not_mem_of_mem_splitOn {l s : List Char} (h : l ∈ s.splitOn sep) : sep ∉ l := by
  intro hsep
  have hne := not_of_mem_splitOnP (q := (· == sep)) h sep hsep
  simp at hne

theorem not_mem_of_mem_split {l s} (h : l ∈ split sep s) : sep ∉ l.toList := by
  obtain ⟨part, hpart, rfl⟩ := mem_map.1 h
  rw [String.toList_ofList]
  exact not_mem_of_mem_splitOn hpart

theorem prefix_of_splitOn {s first rest} (h : s.splitOn sep = first :: rest) : first <+: s := by
  induction s generalizing first rest with
  | nil =>
    rw [splitOn_nil, cons.injEq] at h
    exact ⟨[], by simp [← h.1]⟩
  | cons c s ih =>
    rw [splitOn_cons_eq_if_modifyHead] at h
    by_cases hc : (c == sep) = true
    · rw [if_pos hc, cons.injEq] at h
      exact h.1 ▸ nil_prefix
    · rw [if_neg hc] at h
      cases hs : s.splitOn sep with
      | nil => exact absurd hs (splitOn_ne_nil sep s)
      | cons head tail =>
        rw [hs, modifyHead_cons, cons.injEq] at h
        exact h.1 ▸ cons_prefix_cons.2 ⟨rfl, ih hs⟩

theorem containsList_of_mem_splitOn {sub s} (h : sub ∈ s.splitOn sep) : containsList sub s := by
  induction s with
  | nil => simp_all [containsList]
  | cons c s ih =>
    rw [containsList, Bool.or_eq_true, isPrefixOf_iff_prefix]
    cases hs : s.splitOn sep with
    | nil => exact absurd hs (splitOn_ne_nil sep s)
    | cons first rest =>
      rw [splitOn_cons_eq_if_modifyHead, hs] at h
      split_ifs at h with hc
      · rw [mem_cons] at h
        obtain rfl | h := h
        · exact .inl nil_prefix
        · exact .inr (ih (hs ▸ h))
      · rw [modifyHead_cons, mem_cons] at h
        obtain rfl | h := h
        · exact .inl (cons_prefix_cons.2 ⟨rfl, prefix_of_splitOn hs⟩)
        · exact .inr (ih (hs ▸ mem_cons_of_mem _ h))

theorem contains_of_mem_split {sub s} (h : sub ∈ split sep s) : contains s sub := by
  obtain ⟨part, hpart, rfl⟩ := mem_map.1 h
  rw [contains, String.toList_ofList]
  exact containsList_of_mem_splitOn hpart

theorem split_eq_singleton {s} (h : sep ∉ s.toList) : split sep s = [s] := by
  rw [split, splitOn_eq_singleton h, map_singleton, String.ofList_toList]

variable {a : String}

theorem split_append_of_not_mem (h : sep ∉ a.toList) (b : String) :
    split sep (a ++ b) = (split sep b).modifyHead (a ++ ·) := by
  have hlist : ∀ (l : List Char), sep ∉ l →
      (l ++ b.toList).splitOn sep = (b.toList.splitOn sep).modifyHead (l ++ ·) := by
    intro l hl
    induction l with
    | nil =>
      rw [nil_append]
      cases b.toList.splitOn sep <;> rfl
    | cons c l ih =>
      rw [mem_cons, not_or] at hl
      rw [cons_append, splitOn_cons_eq_if_modifyHead, if_neg (by simpa using Ne.symm hl.1),
        ih hl.2, modifyHead_modifyHead]
      rfl
  rw [split, split, String.toList_append, hlist _ h]
  cases b.toList.splitOn sep with
  | nil => rfl
  | cons part parts => simp

theorem split_eq_empty_cons {s rest} (h : split '/' s = "" :: rest) : s = "" ∨ hasPrefix s "/" := by
  cases hs : s.toList with
  | nil => exact .inl (String.toList_inj.1 (by simpa using hs))
  | cons c cs =>
    by_contra hne
    have hc : c ≠ '/' := by
      rintro rfl
      exact hne (by simp [hasPrefix, hs])
    rw [split, hs, splitOn_cons_eq_if_modifyHead, if_neg (by simpa using hc)] at h
    cases hcs : cs.splitOn '/' with
    | nil => exact absurd hcs (splitOn_ne_nil _ _)
    | cons part parts =>
      rw [hcs, modifyHead_cons, map_cons, cons.injEq] at h
      simp at h

theorem split_append_slash (a b : String) :
    split '/' (a ++ "/" ++ b) = split '/' a ++ split '/' b := by
  have htext : (a ++ "/" ++ b).toList = a.toList ++ '/' :: b.toList := by simp
  rw [split, htext, splitOn_append_cons_self, map_append]
  rfl

variable {names : List String}

theorem split_slash_intercalate (hnames : ∀ n ∈ names, '/' ∉ n.toList)
    (hne : names ≠ []) : split '/' ("/".intercalate names) = names := by
  have htext : "/".intercalate names =
      String.ofList (['/'].intercalate (names.map String.toList)) := by
    rw [← String.toList_inj, String.toList_intercalate, String.toList_ofList,
      String.toList_ofList]
  rw [htext, split_intercalate hnames hne]

/-! ## Resolution -/

def Proper (name : String) : Prop := name ≠ "" ∧ name ≠ "." ∧ name ≠ ".."

section Resolution

variable (abs : Bool) (dir : List String) {name : String}

theorem follow_stay (h : name = "" ∨ name = ".") : follow abs dir name = dir :=
  if_pos h

theorem follow_proper (h : Proper name) : follow abs dir name = dir ++ [name] := by
  rw [follow, if_neg (by simp [h.1, h.2.1]), if_neg h.2.2]

theorem follow_up_concat (h : name ≠ "..") : follow abs (dir ++ [name]) ".." = dir := by
  simp [follow, h]

theorem resolve_append (names more : List String) :
    resolve abs dir (names ++ more) = resolve abs (resolve abs dir names) more :=
  foldl_append

theorem resolve_concat (names : List String) (name : String) :
    resolve abs dir (names ++ [name]) = follow abs (resolve abs dir names) name :=
  resolve_append abs dir names [name]

theorem resolve_proper {names} (h : ∀ n ∈ names, Proper n) :
    resolve abs dir names = dir ++ names := by
  induction names using reverseRecOn with
  | nil => exact (append_nil dir).symm
  | append_singleton names name ih =>
    rw [forall_mem_append] at h
    rw [resolve_concat, ih h.1, follow_proper abs _ (h.2 name mem_cons_self),
      append_assoc]

theorem mem_of_mem_follow {x} (h : x ∈ follow abs dir name) : x ∈ dir ∨ x = name := by
  unfold follow at h
  split_ifs at h with hstay hup hnil habs hlast
  · exact .inl h
  · simp at h
  · exact .inr (by simpa [hup] using h)
  · simpa [hup] using h
  · exact .inl (dropLast_subset dir h)
  · simpa using h

theorem mem_of_mem_resolve {names x} (h : x ∈ resolve abs dir names) : x ∈ dir ∨ x ∈ names := by
  induction names generalizing dir with
  | nil => exact .inl h
  | cons name names ih =>
    obtain hx | hx := ih _ h
    · rw [mem_cons, ← or_assoc]
      exact .inl (mem_of_mem_follow abs dir hx)
    · exact .inr (mem_cons_of_mem _ hx)

end Resolution

/-- What resolution leaves: names without a slash, and `..` only at the front of a relative path. -/
inductive Settled (abs : Bool) : List String → Prop
  | nil : Settled abs []
  | down (dir : List String) (name : String) : Settled abs dir → Proper name → '/' ∉ name.toList →
    Settled abs (dir ++ [name])
  | up (dir : List String) : Settled abs dir → abs = false → dir = [] ∨ dir.getLast? = some ".." →
    Settled abs (dir ++ [".."])

namespace Settled

variable {abs : Bool} {dir : List String}

theorem follow (h : Settled abs dir) {name} (hname : '/' ∉ name.toList) :
    Settled abs (follow abs dir name) := by
  by_cases hstay : name = "" ∨ name = "."
  · rwa [follow_stay abs dir hstay]
  by_cases hup : name = ".."
  · subst hup
    cases h with
    | nil =>
      cases habs : abs with
      | false => exact up [] nil rfl (.inl rfl)
      | true => exact nil
    | down dir last h hlast hslash => rwa [follow_up_concat abs dir hlast.2.2]
    | up dir h habs hlast =>
      have heq : Go.follow abs (dir ++ [".."]) ".." = dir ++ [".."] ++ [".."] := by
        simp [Go.follow]
      rw [heq]
      exact up _ (up dir h habs hlast) habs (.inr (by simp))
  · rw [not_or] at hstay
    have hproper : Proper name := ⟨hstay.1, hstay.2, hup⟩
    rw [follow_proper abs dir hproper]
    exact down dir name h hproper hname

theorem resolve (h : Settled abs dir) {names} (hnames : ∀ n ∈ names, '/' ∉ n.toList) :
    Settled abs (resolve abs dir names) := by
  induction names using reverseRecOn with
  | nil => exact h
  | append_singleton names name ih =>
    rw [forall_mem_append] at hnames
    rw [resolve_concat]
    exact (ih hnames.1).follow (hnames.2 name mem_cons_self)

theorem resolve_self (h : Settled abs dir) : Go.resolve abs [] dir = dir := by
  induction h with
  | nil => rfl
  | down dir name h hproper hslash ih => rw [resolve_concat, ih, follow_proper abs dir hproper]
  | up dir h habs hlast ih =>
    rw [resolve_concat, ih]
    by_cases hdir : dir = []
    · simp [Go.follow, hdir, habs]
    · simp [Go.follow, hdir, hlast.resolve_left hdir]

theorem not_mem_slash (h : Settled abs dir) : ∀ n ∈ dir, '/' ∉ n.toList := by
  induction h with
  | nil => simp
  | down dir name h hproper hslash ih =>
    exact forall_mem_append.2 ⟨ih, forall_mem_singleton.2 hslash⟩
  | up dir h habs hlast ih =>
    exact forall_mem_append.2 ⟨ih, forall_mem_singleton.2 (by decide)⟩

theorem proper (h : Settled abs dir) (hup : ".." ∉ dir) : ∀ n ∈ dir, Proper n := by
  induction h with
  | nil => simp
  | down dir name h hproper hslash ih =>
    rw [mem_append, not_or] at hup
    exact forall_mem_append.2 ⟨ih hup.1, forall_mem_singleton.2 hproper⟩
  | up dir h => simp at hup

theorem not_mem_up (h : Settled true dir) : ".." ∉ dir := by
  induction h with
  | nil => simp
  | down dir name h hproper hslash ih => simp [ih, Ne.symm hproper.2.2]
  | up dir h habs => cases habs

theorem of_proper (h : ∀ n ∈ dir, Proper n ∧ '/' ∉ n.toList) : Settled abs dir := by
  induction dir using reverseRecOn with
  | nil => exact nil
  | append_singleton dir name ih =>
    rw [forall_mem_append] at h
    obtain ⟨hproper, hslash⟩ := h.2 name mem_cons_self
    exact down dir name (ih h.1) hproper hslash

theorem head_up (h : Settled abs dir) (hup : ".." ∈ dir) : dir.head? = some ".." := by
  induction h with
  | nil => cases hup
  | down dir name h hproper hslash ih =>
    have hmem : ".." ∈ dir := by
      simpa [Ne.symm hproper.2.2] using hup
    rw [head?_append, ih hmem]
    rfl
  | up dir h habs hlast ih =>
    obtain rfl | hlast := hlast
    · rfl
    · rw [head?_append, ih (mem_of_getLast? hlast)]
      rfl

theorem resolve_follow {rel} (h : Settled false rel) (name : String) :
    Go.resolve abs dir (Go.follow false rel name) =
      Go.follow abs (Go.resolve abs dir rel) name := by
  by_cases hstay : name = "" ∨ name = "."
  · rw [follow_stay _ _ hstay, follow_stay _ _ hstay]
  by_cases hup : name = ".."
  · subst hup
    cases h with
    | nil => rfl
    | down rel last h hlast hslash =>
      rw [follow_up_concat _ _ hlast.2.2, resolve_concat, follow_proper _ _ hlast,
        follow_up_concat _ _ hlast.2.2]
    | up rel h =>
      have heq : Go.follow false (rel ++ [".."]) ".." = rel ++ [".."] ++ [".."] := by
        simp [Go.follow]
      rw [heq, resolve_concat]
  · rw [not_or] at hstay
    rw [follow_proper _ _ ⟨hstay.1, hstay.2, hup⟩, resolve_concat]

end Settled

theorem settled_elements (path : String) : Settled (isAbs path) (elements path) :=
  Settled.nil.resolve fun _ => not_mem_of_mem_split

theorem settled_relElements (path : String) : Settled false (relElements path) :=
  Settled.nil.resolve fun _ => not_mem_of_mem_split

theorem resolve_relative (abs : Bool) (dir : List String)
    (hnames : ∀ n ∈ names, '/' ∉ n.toList) :
    resolve abs dir names = resolve abs dir (resolve false [] names) := by
  induction names using reverseRecOn with
  | nil => rfl
  | append_singleton names name ih =>
    rw [forall_mem_append] at hnames
    rw [resolve_concat, resolve_concat, ih hnames.1,
      (Settled.nil.resolve hnames.1).resolve_follow name]

theorem resolve_split (abs : Bool) (dir : List String) (path : String) :
    resolve abs dir (split '/' path) = resolve abs dir (relElements path) :=
  resolve_relative abs dir fun _ => not_mem_of_mem_split

/-! ## Clean paths -/

theorem isAbs_append (h : a ≠ "") (b : String) : isAbs (a ++ b) = isAbs a := by
  have hne : a.toList ≠ [] := fun hnil => h (String.toList_inj.1 (by simpa using hnil))
  obtain ⟨c, cs, hcs⟩ := exists_cons_of_ne_nil hne
  simp [isAbs, hasPrefix, hcs, isPrefixOf]

namespace Settled

variable {abs : Bool} {names : List String}

theorem ne_empty (h : Settled abs names) : ∀ n ∈ names, n ≠ "" := by
  induction h with
  | nil => simp
  | down dir name h hproper hslash ih =>
    exact forall_mem_append.2 ⟨ih, forall_mem_singleton.2 hproper.1⟩
  | up dir h habs hlast ih =>
    exact forall_mem_append.2 ⟨ih, forall_mem_singleton.2 (by decide)⟩

theorem isAbs_intercalate (h : Settled abs names) : isAbs ("/".intercalate names) = false := by
  cases names with
  | nil => decide
  | cons n names =>
    have hne : n.toList ≠ [] := fun hnil =>
      h.ne_empty n mem_cons_self (String.toList_inj.1 (by simpa using hnil))
    obtain ⟨c, cs, hcs⟩ := exists_cons_of_ne_nil hne
    have hc : c ≠ '/' := by
      have hslash := h.not_mem_slash n mem_cons_self
      rw [hcs, mem_cons, not_or] at hslash
      exact Ne.symm hslash.1
    cases names <;> simp [isAbs, hasPrefix, hcs, isPrefixOf, Ne.symm hc]

theorem resolve_intercalate (h : Settled abs names) :
    Go.resolve abs [] (split '/' ("/".intercalate names)) = names := by
  by_cases hne : names = []
  · subst hne
    rfl
  · rw [split_slash_intercalate h.not_mem_slash hne, h.resolve_self]

end Settled

theorem isAbs_clean (path : String) : isAbs (clean path) = isAbs path := by
  rw [clean]
  split_ifs with habs hnil
  · rw [habs]
    exact hasPrefix_append "/" _
  · rw [Bool.eq_false_iff.2 habs]
    rfl
  · rw [(settled_elements path).isAbs_intercalate, Bool.eq_false_iff.2 habs]

theorem elements_clean (path : String) : elements (clean path) = elements path := by
  have hsettled := settled_elements path
  rw [elements, isAbs_clean, clean]
  split_ifs with habs hnil
  · have hroot : "/" ++ "/".intercalate (elements path) =
        "" ++ "/" ++ "/".intercalate (elements path) := rfl
    rw [hroot, split_append_slash, resolve_append]
    exact hsettled.resolve_intercalate
  · rw [hnil]
    rfl
  · exact hsettled.resolve_intercalate

theorem clean_congr {b} (habs : isAbs a = isAbs b) (h : elements a = elements b) :
    clean a = clean b := by
  rw [clean, clean, habs, h]

theorem clean_clean (path : String) : clean (clean path) = clean path :=
  clean_congr (isAbs_clean path) (elements_clean path)

/-! ## Base names -/

theorem base_eq_slash {path} (h : '/' ∈ (base path).toList) : base path = "/" := by
  by_cases hempty : path = ""
  · rw [base, if_pos hempty] at h
    exact absurd h (by decide)
  · rw [base, if_neg hempty] at h ⊢
    by_cases hbody : (path.toList.reverse.dropWhile (· == '/')).isEmpty
    · exact if_pos hbody
    · rw [if_neg hbody, String.toList_ofList, mem_reverse] at h
      simpa using mem_takeWhile_imp h

theorem mem_of_mem_trimSuffix {s suf c} (h : c ∈ (trimSuffix s suf).toList) : c ∈ s.toList := by
  unfold trimSuffix at h
  split_ifs at h
  · rw [String.toList_ofList] at h
    exact mem_of_mem_take h
  · exact h

/-! ## Joined paths -/

theorem resolve_relElements_self (path : String) :
    resolve (isAbs path) [] (relElements path) = elements path :=
  (resolve_split _ _ path).symm

theorem intercalate_cons_cons (a b : String) (rest : List String) :
    "/".intercalate (a :: b :: rest) = a ++ ("/" ++ "/".intercalate (b :: rest)) := by
  rw [← String.toList_inj]
  simp

theorem clean_ne_empty (path : String) : clean path ≠ "" := by
  unfold clean
  split
  · intro h
    simpa using congrArg String.toList h
  · split
    · decide
    · next hne =>
      intro h
      obtain ⟨name, names, hnames⟩ := exists_cons_of_ne_nil hne
      have hname : name ≠ "" := (settled_elements path).ne_empty name (hnames ▸ mem_cons_self)
      rw [hnames] at h
      cases names with
      | nil => exact hname (by simpa using h)
      | cons b rest =>
        simpa using congrArg String.toList h

theorem split_intercalate_slash {parts} (h : parts ≠ []) :
    split '/' ("/".intercalate parts) = parts.flatMap (split '/') := by
  induction parts with
  | nil => exact absurd rfl h
  | cons part parts ih =>
    by_cases hnil : parts = []
    · simp [hnil]
    · obtain ⟨next, rest, rfl⟩ := exists_cons_of_ne_nil hnil
      rw [intercalate_cons_cons, ← String.append_assoc, split_append_slash, ih hnil]
      rfl

theorem resolve_flatMap_split (abs : Bool) (dir parts : List String) :
    resolve abs dir ((parts.filter (· ≠ "")).flatMap (split '/')) =
      resolve abs dir (parts.flatMap relElements) := by
  induction parts generalizing dir with
  | nil => rfl
  | cons part parts ih =>
    rw [flatMap_cons, resolve_append, ← ih, ← resolve_split]
    by_cases hpart : part = ""
    · rw [hpart]
      rfl
    · rw [filter_cons_of_pos (by simpa using hpart), flatMap_cons, resolve_append]

theorem elements_joinPath (parts : List String) :
    elements (joinPath parts) = resolve (isAbs (joinPath parts)) [] (parts.flatMap relElements) := by
  rw [joinPath, elements_clean, isAbs_clean, ← resolve_flatMap_split, elements]
  by_cases hparts : parts.filter (· ≠ "") = []
  · rw [hparts]
    rfl
  · rw [split_intercalate_slash hparts]

section

variable (a : String) (parts : List String)

theorem isAbs_joinPath (h : a = "" → isAbs (joinPath parts) = false) : isAbs (joinPath (a :: parts)) = isAbs a := by
  by_cases ha : a = ""
  · rw [joinPath, filter_cons_of_neg (by simpa using ha), ← joinPath, h ha, ha]
    rfl
  · rw [joinPath, isAbs_clean, filter_cons_of_pos (by simpa using ha)]
    cases parts.filter (· ≠ "") with
    | nil => simp
    | cons next rest => rw [intercalate_cons_cons, isAbs_append ha]

theorem elements_joinPath_cons (h : a = "" → isAbs (joinPath parts) = false) :
    elements (joinPath (a :: parts)) =
      resolve (isAbs a) (elements a) (parts.flatMap relElements) := by
  rw [elements_joinPath, isAbs_joinPath a parts h, flatMap_cons, resolve_append,
    resolve_relElements_self]

theorem clean_joinPath : clean (joinPath parts) = joinPath parts := clean_clean _

end

theorem elements_joinPath_names (ha : a ≠ "")
    (h : ∀ n ∈ names, Proper n ∧ '/' ∉ n.toList) :
    elements (joinPath [a, "/".intercalate names]) = elements a ++ names := by
  have hrel : relElements ("/".intercalate names) = names := (Settled.of_proper h).resolve_intercalate
  rw [elements_joinPath_cons a _ fun hempty => absurd hempty ha, flatMap_singleton, hrel,
    resolve_proper _ _ fun n hn => (h n hn).1]

/-! ## Climbing -/

section Climbing

variable {abs : Bool} {dir s : List String} {k : ℕ}

theorem Settled.eq_climb_append (h : Settled false dir) :
    ∃ k s, dir = replicate k ".." ++ s ∧ ∀ n ∈ s, Proper n := by
  induction h with
  | nil => exact ⟨0, [], rfl, by simp⟩
  | down dir name h hproper hslash ih =>
    obtain ⟨k, s, rfl, hs⟩ := ih
    exact ⟨k, s ++ [name], append_assoc _ _ _,
      forall_mem_append.2 ⟨hs, forall_mem_singleton.2 hproper⟩⟩
  | up dir h habs hlast ih =>
    obtain ⟨k, s, rfl, hs⟩ := ih
    have hnil : s = [] := by
      by_contra hne
      obtain hdir | hlast := hlast
      · exact hne (append_eq_nil_iff.1 hdir).2
      · rw [getLast?_append_of_ne_nil _ hne] at hlast
        exact (hs _ (mem_of_getLast? hlast)).2.2 rfl
    exact ⟨k + 1, [], by rw [hnil, append_nil, append_nil, replicate_succ'], by simp⟩

theorem resolve_climb_root : resolve true [] (replicate k "..") = [] := by
  induction k with
  | zero => rfl
  | succ k ih => exact ih

theorem resolve_climb_append (hs : ∀ n ∈ s, Proper n) :
    resolve abs dir (replicate k ".." ++ s) = resolve abs dir (replicate k "..") ++ s := by
  rw [resolve_append, resolve_proper _ _ hs]

theorem resolve_climb (n : ℕ) :
    resolve false (replicate n "..") (replicate k "..") = replicate (n + k) ".." := by
  induction k generalizing n with
  | zero => rfl
  | succ k ih =>
    have hfollow : follow false (replicate n "..") ".." = replicate (n + 1) ".." := by
      cases n with
      | zero => rfl
      | succ n =>
        have hlast : (replicate (n + 1) "..").getLast? = some ".." := by
          simp [getLast?_replicate]
        have hne : replicate (n + 1) ".." ≠ [] := by simp
        rw [follow, if_neg (by decide), if_pos rfl, if_neg hne, if_pos hlast, ← replicate_succ']
    rw [replicate_succ, resolve, foldl_cons, hfollow, ← resolve, ih, Nat.add_right_comm,
      Nat.add_assoc]

theorem climb_append_inj {n t} (hs : s.head? ≠ some "..") (ht : t.head? ≠ some "..")
    (h : replicate k ".." ++ s = replicate n ".." ++ t) : k = n := by
  have hdrop : ∀ m (u : List String), u.head? ≠ some ".." →
      (replicate m ".." ++ u).dropWhile (· = "..") = u := by
    intro m u hu
    rw [dropWhile_append_of_pos (by simp)]
    cases u with
    | nil => rfl
    | cons x u => rw [dropWhile_cons_of_neg (by simpa using hu)]
  have hst : s = t := by rw [← hdrop k s hs, h, hdrop n t ht]
  have hlen := congrArg length h
  simp only [length_append, length_replicate, hst] at hlen
  omega

end Climbing

/-! ## Directories -/

def Below (dir path : String) : Prop :=
  isAbs path = isAbs dir ∧ elements dir <+: elements path ∧
    ".." ∉ (elements path).drop (elements dir).length

def StrictlyBelow (dir path : String) : Prop := Below dir path ∧ elements path ≠ elements dir

instance (dir path : String) : Decidable (Below dir path) := inferInstanceAs (Decidable (_ ∧ _ ∧ _))

instance (dir path : String) : Decidable (StrictlyBelow dir path) :=
  inferInstanceAs (Decidable (_ ∧ _))

section Below

variable {dir path : String} {root a b : List String} (habs : isAbs path = isAbs dir)
  (hdir : elements dir = root ++ a) (hpath : elements path = root ++ b) (hup : ".." ∉ b)

include habs hdir hpath hup

theorem below_iff_prefix : Below dir path ↔ a <+: b := by
  have hdrop : ".." ∉ (root ++ b).drop (root ++ a).length := by
    rw [length_append, drop_append, drop_of_length_le (Nat.le_add_right _ _)]
    exact fun hmem => hup (mem_of_mem_drop hmem)
  rw [Below, hdir, hpath, prefix_append_right_inj]
  exact ⟨fun h => h.2.1, fun h => ⟨habs, h, hdrop⟩⟩

theorem strictlyBelow_iff_prefix : StrictlyBelow dir path ↔ a <+: b ∧ b ≠ a := by
  rw [StrictlyBelow, below_iff_prefix habs hdir hpath hup, hdir, hpath, Ne,
    append_cancel_left_eq]

end Below

end Go
