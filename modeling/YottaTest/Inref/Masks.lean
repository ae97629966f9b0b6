/-
  File:      YottaTest/Inref/Masks.lean
  Subject:   inref.awk: masking the paths and hosts of a log, against the flags of outref.awk.

  * `pathMasks`, `hostMasks`, `timeRules`, `replaceFlags` -- the function `replace_flags` of inref.awk;
  * `MasksOk`, `UnmasksOk` -- every gsub finds what its flag stands for, and nothing else;
  * `unmask_mask` -- **then the flags of outref.awk give back the line**;
  * `dot_in_host` -- a host name with a dot masks another word.
-/
import YottaTest.Awk.Masking
import YottaTest.Outref.Flags

namespace YottaTest.Inref

open YottaTest.Awk YottaTest.Outref

/-! ## 1. The code -/

/-- A value that is empty is replaced by one that no line has. -/
def orNever (value : Text) : Text := if value = [] then "iMpOsSiBbLe".toList else value

/-- `"\\y" name "\\y"`. -/
def edges (name : Text) : Text := "\\y".toList ++ name ++ "\\y".toList

/-- `sub(/\./,"\\.",text)`. -/
def escapeDot : Text → Text
  | [] => []
  | c :: s => if c = '.' then '\\' :: '.' :: s else c :: escapeDot s

/-- A pattern and the flag for it. -/
structure Mask where
  pattern : Text
  flag : String

section Masks

variable (env : Environ) (realpath : Text)

/-- `env["tst"]`. -/
def tst : Text := subst "_[0-9][0-9]*" [] (env.get "testname")

/-- The paths and hosts; `realpath` is what the command of this name prints. -/
def pathMasks : List Mask := [
  ⟨orNever (env.get "tst_working_dir"), "##TEST_PATH##"⟩,
  ⟨orNever (env.get "gtm_tst" ++ '/' :: tst env), "##IN_TEST_PATH##"⟩,
  ⟨orNever (env.get "gtm_exe"), "##SOURCE_PATH##"⟩,
  ⟨orNever (env.get "HOME"), "##HOME_PATH##"⟩,
  ⟨orNever (env.get "gtm_tst") ++ "/com".toList, "##TEST_COM_PATH##"⟩,
  ⟨orNever (env.get "remote_gtm_exe"), "##REMOTE_SOURCE_PATH##"⟩,
  ⟨orNever (env.get "remote_test_path"), "##REMOTE_TEST_PATH##"⟩,
  ⟨orNever realpath, "##SOURCE_REALPATH##"⟩,
  ⟨edges (orNever (env.get "tst_org_host")), "##TEST_HOST##"⟩,
  ⟨edges (orNever (env.get "tst_remote_host")), "##TEST_REMOTE_HOST##"⟩,
  ⟨edges (orNever (env.get "tst_remote_host_ms_1")), "##TEST_REMOTE_HOST_MS_1##"⟩,
  ⟨edges (orNever (env.get "tst_remote_host_ms_2")), "##TEST_REMOTE_HOST_MS_2##"⟩,
  ⟨orNever (env.get "tst_gtcm_server_list"), "##TEST_GTCM_SERVER_LIST##"⟩,
  ⟨orNever (escapeDot (env.get "gt_ld_shl_suffix")), "##TEST_SHL_SUFFIX##"⟩,
  ⟨orNever (env.get "gtm_root"), "##GTM_LIBRARY_PATH##"⟩]

/-- `server_list_array`. -/
def servers : List Text := fields (env.get "tst_gtcm_server_list")

/-- `dir_gtcm_array[i]`. -/
def dir (i : Nat) : Text :=
  if 1 ≤ i ∧ i ≤ (fields (env.get "tst_remote_dir_gtcm")).length
  then entry (fields (env.get "tst_remote_dir_gtcm")) i ++ env.get "test_path_comp" else []

/-- The masks of one GT.CM host. -/
def hostMask (i : Nat) : List Mask := [
  ⟨short (entry (servers env) i) ++ ':' :: dir env i, "##TEST_REMOTE_NODE_PATH_GTCM##"⟩,
  ⟨edges (entry (servers env) i), "##TEST_REMOTE_HOST_GTCM##"⟩,
  ⟨dir env i, "##TEST_REMOTE_PATH_GTCM##"⟩]

/-- The GT.CM hosts, in the order in which awk takes them. -/
def hostMasks : List Mask :=
  (env.visit ((List.range (servers env).length).map fun i => Nat.toDigits 10 (i + 1))).flatMap fun key =>
    hostMask env (number key)

/-- The gsubs for paths and hosts; `none` where awk stops at a pattern. -/
def maskPaths (masks : List Mask) (line : Text) : Option Text :=
  masks.foldlM (fun text m => (ere m.pattern).map fun r => gsub r m.flag.toList text) line

/-- A file name with a time: its extension. -/
def fileRule (ext : String) : String × (Text → Text) :=
  ("\\." ++ ext ++ "_[0-9][0-9]*(_[0-9][0-9]*|[0-9])",
    subst (ext ++ "_[0-9][0-9]*(_[0-9][0-9]*|[0-9])") (ext ++ "_[0-9]*(_[0-9][0-9]*|[0-9])").toList)

/-- The rules that make a line a TEST_AWK line, each with what it does before. -/
def timeRules : List (String × (Text → Text)) := [
  fileRule "mjl", fileRule "mjf", fileRule "lost", fileRule "broken",
  ("^%YDB-I-MUJNLSTAT, .* at ", subst " at .*" " at ... ... .. ..:..:.. 20..".toList),
  ("^Date\\/Time[ ]*[0-9][0-9]-[A-Z][A-Z][A-Z]-[0-9][0-9][0-9][0-9] [0-9][0-9]:[0-9][0-9]:[0-9][0-9] ..H = [5-9][0-9][0-9][0-9][0-9],[0-9]+.$",
    fun _ => "Date/Time       [0-9][0-9]-[A-Z][A-Z][A-Z]-[0-9][0-9][0-9][0-9] [0-9][0-9]:[0-9][0-9]:[0-9][0-9] ..H = [5-9][0-9][0-9][0-9][0-9],[0-9]+.".toList),
  ("^%YDB-I-IPCNOTDEL, ",
    subst "[A-Z][aeiounhdrn]+ [A-Z][abcelmnopruv]+ [ 12][0-9] [0-2][0-9]:[0-5][0-9]:[0-5][0-9] 20[0-9][0-9]"
      "... ... .. ..:..:.. 20..".toList)]

def markTimes (text : Text) : Text :=
  timeRules.foldl (fun text rule => if found rule.1 text then "##TEST_AWK".toList ++ rule.2 text else text) text

/-- `replace_flags`. -/
def replaceFlags (line : Text) : Option Text :=
  (maskPaths (pathMasks env realpath ++ hostMasks env) line).map markTimes

end Masks

/-! ## 2. Where the two scripts agree -/

/-- What outref.awk puts in the place of a flag. -/
def standsFor (env : Environ) (flag : Text) : Text :=
  (((flags env).find? fun f => f.1.toList = flag).map Prod.snd).getD []

/-- The items after the gsubs of inref.awk. -/
def maskAll : List Mask → List Item → List Item
  | [], items => items
  | m :: ms, items => maskAll ms (((ere m.pattern).map fun r => mask r m.flag.toList items).getD items)

/-- At each gsub of inref.awk, whatever is matched is what the flag stands for, outside the flags put in
    before. -/
def MasksOk (env : Environ) : List Mask → List Item → Prop
  | [], _ => True
  | m :: ms, items => ∃ r, ere m.pattern = some r ∧ Clean r (standsFor env m.flag.toList) items ∧
      MasksOk env ms (mask r m.flag.toList items)

/-- The items after the gsubs of outref.awk. -/
def unmaskAll : List (String × Text) → List Item → List Item
  | [], items => items
  | f :: fs, items => unmaskAll fs (unmask f.1.toList f.2 items)

/-- At each gsub of outref.awk, the flag is found only where inref.awk put it, and its text is put in as
    it is. -/
def UnmasksOk : List (String × Text) → List Item → Prop
  | [], _ => True
  | f :: fs, items => Alone f.1.toList items ∧
      (∀ h, .flag f.1.toList h ∈ items → expand f.2 f.1.toList = f.2) ∧
      UnmasksOk fs (unmask f.1.toList f.2 items)

/-- The names of the flags of outref.awk. -/
def flagNames : List String := [
  "##TEST_REMOTE_HOST_GTCM_1##", "##TEST_REMOTE_PATH_GTCM_1##", "##TEST_REMOTE_NODE_PATH_GTCM_1##",
  "##TEST_REMOTE_HOST_GTCM_2##", "##TEST_REMOTE_PATH_GTCM_2##", "##TEST_REMOTE_NODE_PATH_GTCM_2##",
  "##REMOTE_TEST_PATH##", "##TEST_PATH##", "##YDBENVVAR##", "##IN_TEST_PATH##", "##REMOTE_SOURCE_PATH##",
  "##SOURCE_PATH##", "##SOURCE_REALPATH##", "##HOME_PATH##", "##TST_IMAGE##", "##TEST_HOST##",
  "##TEST_HOST_SHORT##", "##TEST_NODE##", "##TEST_REMOTE_HOST##", "##TEST_REMOTE_HOST_SHORT##",
  "##TEST_REMOTE_HOST_MS_1##", "##TEST_REMOTE_HOST_MS_2##", "##TEST_REMOTE_DIR_MS_1##",
  "##TEST_REMOTE_DIR_MS_2##", "##TEST_GTCM_SERVER_LIST##", "##TEST_REMOTE_HOST_2##", "##TEST_COM_PATH##",
  "##TEST_SHL_SUFFIX##", "##GTM_LIBRARY_PATH##"]

/-- The flags of the GT.CM hosts, which `replace_flags` of outref.awk does not know. -/
def hostFlagNames : List String :=
  ["##TEST_REMOTE_NODE_PATH_GTCM##", "##TEST_REMOTE_HOST_GTCM##", "##TEST_REMOTE_PATH_GTCM##"]

theorem flags_names (env : Environ) : (flags env).map Prod.fst = flagNames := rfl

/-- A flag has no character that a pattern or a replacement reads as anything else. -/
theorem flag_plain : ∀ name ∈ flagNames ++ hostFlagNames, name.toList ≠ [] ∧
    (∀ c ∈ name.toList, c ∉ metachars ∧ c ≠ '&') := by
  have hall : (flagNames ++ hostFlagNames).all (fun name => decide (name.toList ≠ []) &&
      name.toList.all fun c => decide (c ∉ metachars ∧ c ≠ '&')) = true := by
    unfold flagNames hostFlagNames
    simp only [List.all_append, List.all_cons, List.all_nil]
    repeat rw [String.toList_ofList]
    decide +kernel
  intro name hname
  have hname := List.all_eq_true.1 hall name hname
  rw [Bool.and_eq_true] at hname
  exact ⟨of_decide_eq_true hname.1, forall_mem_of_all hname.2⟩

theorem flagTexts_nodup : (flagNames.map String.toList ++ hostFlagNames.map String.toList).Nodup := by
  unfold flagNames hostFlagNames
  simp only [List.map_cons, List.map_nil]
  repeat rw [String.toList_ofList]
  decide +kernel

theorem pathMask_flag (env : Environ) (realpath : Text) :
    ∀ m ∈ pathMasks env realpath, m.flag ∈ flagNames := by
  have hnames : (pathMasks env realpath).map Mask.flag ⊆ flagNames := by
    unfold pathMasks flagNames
    simp
  exact fun m hm => hnames (List.mem_map_of_mem hm)

theorem hostMask_flag (env : Environ) : ∀ m ∈ hostMasks env, m.flag ∈ hostFlagNames := by
  intro m hm
  obtain ⟨key, -, hm⟩ := List.mem_flatMap.1 hm
  unfold hostMask at hm
  unfold hostFlagNames
  simp only [List.mem_cons, List.not_mem_nil, or_false] at hm
  rcases hm with rfl | rfl | rfl
  · exact List.mem_cons_self
  · simp
  · simp

/-- outref.awk does not know the flags of the GT.CM hosts. -/
theorem standsFor_host (env : Environ) {name : String} (h : name ∈ hostFlagNames) :
    standsFor env name.toList = [] := by
  have hout : ∀ name ∈ hostFlagNames, ∀ f ∈ flagNames, f.toList ≠ name.toList := fun name hname f hf =>
    (List.nodup_append.1 flagTexts_nodup).2.2 _ (List.mem_map_of_mem hf) _ (List.mem_map_of_mem hname)
  have hnone : (flags env).find? (fun f => f.1.toList = name.toList) = none := by
    refine List.find?_eq_none.2 fun f hf => ?_
    have hmem : f.1 ∈ flagNames := flags_names env ▸ List.mem_map_of_mem hf
    simpa using hout name h f.1 hmem
  rw [standsFor, hnone]
  rfl

section RoundTrip

variable {env : Environ}

theorem find?_of_nodup : ∀ {fs : List (String × Text)} {f : String × Text},
    (fs.map fun f => f.1.toList).Nodup → f ∈ fs → fs.find? (fun g => g.1.toList = f.1.toList) = some f
  | g :: fs, f, hnodup, h => by
      obtain ⟨hout, hnodup⟩ := List.nodup_cons.1 hnodup
      rcases List.mem_cons.1 h with rfl | h
      · rw [List.find?_cons_of_pos (by simp)]
      · have hne : ¬ g.1.toList = f.1.toList := by
          intro heq
          exact hout (List.mem_map.2 ⟨f, h, heq.symm⟩)
        rw [List.find?_cons_of_neg (by simpa using hne)]
        exact find?_of_nodup hnodup h

theorem standsFor_flag {f : String × Text} (h : f ∈ flags env) : standsFor env f.1.toList = f.2 := by
  have hnames := (List.nodup_append.1 flagTexts_nodup).1
  have hnodup : ((flags env).map fun f => f.1.toList).Nodup := by
    rw [← flags_names env, List.map_map] at hnames
    exact hnames
  rw [standsFor, find?_of_nodup hnodup h]
  rfl

theorem expand_flag {name : String} (h : name ∈ flagNames ++ hostFlagNames) (matched : Text) :
    expand name.toList matched = name.toList := by
  refine expand_of_plain (fun c hc => ⟨((flag_plain name h).2 c hc).2, ?_⟩) matched
  rintro rfl
  exact ((flag_plain name h).2 _ hc).1 (by decide)

/-- **The gsubs of inref.awk keep what the line stands for**, and put in flags of outref.awk only. -/
theorem masks_keep : ∀ {ms : List Mask} {items : List Item},
    (∀ m ∈ ms, m.flag ∈ flagNames ++ hostFlagNames) → MasksOk env ms items →
    maskPaths ms (spell items) = some (spell (maskAll ms items)) ∧
    value (standsFor env) (maskAll ms items) = value (standsFor env) items ∧
    ∀ t ht, .flag t ht ∈ maskAll ms items → .flag t ht ∈ items ∨ ∃ name ∈ flagNames, t = name.toList
  | [], _, _, _ => ⟨rfl, rfl, fun _ _ h => Or.inl h⟩
  | m :: ms, items, hnames, h => by
      obtain ⟨r, hr, hclean, hrest⟩ := h
      have hm := hnames m List.mem_cons_self
      obtain ⟨hrun, hvalue, hflags⟩ := masks_keep (fun n hn => hnames n (List.mem_cons_of_mem m hn)) hrest
      have hall : maskAll (m :: ms) items = maskAll ms (mask r m.flag.toList items) := by
        rw [maskAll, hr]
        rfl
      have hgsub := gsub_mask hclean (flag_plain m.flag hm).1 (expand_flag hm)
      rw [hall]
      refine ⟨?_, hvalue.trans (value_mask hclean _ rfl), ?_⟩
      · rw [← hrun, ← hgsub, maskPaths, List.foldlM_cons, hr]
        rfl
      · intro t ht hmem
        rcases hflags t ht hmem with hin | hname
        · rcases List.mem_append.1 hm with hflag | hhost
          · rcases mem_mask hin with heq | hin
            · exact Or.inr ⟨m.flag, hflag, heq⟩
            · exact Or.inl hin
          · -- a GT.CM flag is put in nowhere: outref.awk has nothing for it
            rw [standsFor_host env hhost] at hclean
            rw [mask_of_empty hclean] at hin
            exact Or.inl hin
        · exact Or.inr hname

/-- **The gsubs of outref.awk keep it too**, and leave no flag of theirs. -/
theorem unmasks_keep : ∀ {fs : List (String × Text)} {items : List Item}, (∀ f ∈ fs, f ∈ flags env) →
    UnmasksOk fs items →
    fs.foldl (fun text flag => subst flag.1 flag.2 text) (spell items) = spell (unmaskAll fs items) ∧
    value (standsFor env) (unmaskAll fs items) = value (standsFor env) items ∧
    ∀ t ht, .flag t ht ∈ unmaskAll fs items → .flag t ht ∈ items ∧ ∀ f ∈ fs, t ≠ f.1.toList
  | [], _, _, _ => ⟨rfl, rfl, fun _ _ h => ⟨h, fun _ hf => absurd hf List.not_mem_nil⟩⟩
  | f :: fs, items, hin, h => by
      obtain ⟨halone, hplain, hrest⟩ := h
      have hf := hin f List.mem_cons_self
      obtain ⟨hrun, hvalue, hflags⟩ := unmasks_keep (fun g hg => hin g (List.mem_cons_of_mem f hg)) hrest
      have hname : f.1 ∈ flagNames ++ hostFlagNames :=
        List.mem_append_left _ (flags_names env ▸ List.mem_map_of_mem hf)
      have hword : ere f.1.toList = some (word f.1.toList) :=
        ere_literal fun c hc => ((flag_plain f.1 hname).2 c hc).1
      have hgsub := gsub_unmask halone (flag_plain f.1 hname).1 hplain
      refine ⟨?_, hvalue.trans (value_unmask _ (standsFor_flag hf) items), ?_⟩
      · rw [List.foldl_cons, subst, hword, Option.map_some, Option.getD_some, hgsub]
        exact hrun
      · intro t ht hmem
        obtain ⟨hmem, hne⟩ := hflags t ht hmem
        obtain ⟨hfirst, hmem⟩ := mem_unmask hmem
        refine ⟨hmem, fun g hg => ?_⟩
        rcases List.mem_cons.1 hg with rfl | hg
        · exact hfirst
        · exact hne g hg

/-- A text that no rule for times finds stays. -/
theorem markTimes_of_absent {text : Text} (h : ∀ rule ∈ timeRules, found rule.1 text = false) :
    markTimes text = text := by
  unfold markTimes
  generalize timeRules = rules at h
  induction rules with
  | nil => rfl
  | cons rule rules ih =>
      obtain ⟨hrule, hrules⟩ := List.forall_mem_cons.1 h
      rw [List.foldl_cons, hrule]
      exact ih hrules

/-- **Masked by inref.awk and unmasked by outref.awk, a line is as it was**, if no rule for times makes it
    a TEST_AWK line. -/
theorem unmask_mask {realpath line : Text}
    (hmasks : MasksOk env (pathMasks env realpath ++ hostMasks env) (line.map .chr))
    (hunmasks : UnmasksOk (flags env) (maskAll (pathMasks env realpath ++ hostMasks env) (line.map .chr)))
    (htimes : ∀ text, maskPaths (pathMasks env realpath ++ hostMasks env) line = some text →
      ∀ rule ∈ timeRules, found rule.1 text = false) :
    ∃ masked, replaceFlags env realpath line = some masked ∧ Outref.replaceFlags env masked = line := by
  have hnames : ∀ m ∈ pathMasks env realpath ++ hostMasks env, m.flag ∈ flagNames ++ hostFlagNames := by
    intro m hm
    rcases List.mem_append.1 hm with hm | hm
    · exact List.mem_append_left _ (pathMask_flag env realpath m hm)
    · exact List.mem_append_right _ (hostMask_flag env m hm)
  obtain ⟨hrun, hvalue, hflags⟩ := masks_keep hnames hmasks
  obtain ⟨hback, hvalue', hleft⟩ := unmasks_keep (fun f hf => hf) hunmasks
  rw [spell_chars] at hrun
  have hclear : ∀ t ht, .flag t ht ∉
      unmaskAll (flags env) (maskAll (pathMasks env realpath ++ hostMasks env) (line.map .chr)) := by
    intro t ht hmem
    obtain ⟨hmem, hne⟩ := hleft t ht hmem
    rcases hflags t ht hmem with hin | ⟨name, hname, rfl⟩
    · simp at hin
    · rw [← flags_names env] at hname
      obtain ⟨f, hf, rfl⟩ := List.mem_map.1 hname
      exact hne f hf rfl
  refine ⟨spell (maskAll (pathMasks env realpath ++ hostMasks env) (line.map .chr)), ?_, ?_⟩
  · rw [replaceFlags, hrun, Option.map_some, markTimes_of_absent (htimes _ hrun)]
  · rw [Outref.replaceFlags, hback, spell_eq_value hclear, hvalue', hvalue, value_chars]

end RoundTrip

/-! ## 3. A site whose host has a dot in its name -/

def site : Environ := Environ.ofList [("testname", "mupip_0"), ("tst", "mupip"), ("gtm_tst", "/gtc/T"),
  ("remote_test_path", "/area2"), ("SEC_DIR", "/area2"), ("HOME", "/home/gtm"), ("tst_org_host", "a.b")]

/-- Patterns that match nowhere mask nothing. -/
def absentAll (ms : List Mask) (text : Text) : Bool :=
  ms.all fun m => match ere m.pattern with
    | some r => !matchesText r text
    | none => false

theorem masksOk_of_absent (env : Environ) : ∀ {ms ns : List Mask} {items : List Item},
    absentAll ms (spell items) = true → MasksOk env ns items →
    MasksOk env (ms ++ ns) items ∧ maskAll (ms ++ ns) items = maskAll ns items
  | [], _, _, _, h => ⟨h, rfl⟩
  | m :: ms, ns, items, habsent, h => by
      rw [absentAll, List.all_cons, Bool.and_eq_true] at habsent
      obtain ⟨hfirst, habsent⟩ := habsent
      obtain ⟨hok, hall⟩ := masksOk_of_absent env habsent h
      split at hfirst
      · rename_i r hr
        have hnone : matchesText r (spell items) = false := by simpa using hfirst
        have hsame : mask r m.flag.toList items = items := mask_of_empty (clean_of_absent hnone [])
        refine ⟨⟨r, hr, clean_of_absent hnone _, ?_⟩, ?_⟩
        · rw [hsame]
          exact hok
        · rw [List.cons_append, maskAll, hr, Option.map_some, Option.getD_some, hsame]
          exact hall
      · cases hfirst

theorem unmasksOk_of_absent : ∀ {fs gs : List (String × Text)} {items : List Item},
    (∀ f ∈ fs, ¬ f.1.toList <:+: spell items) → UnmasksOk gs items → UnmasksOk (fs ++ gs) items
  | [], _, _, _, h => h
  | f :: fs, gs, items, habsent, h => by
      have hout := habsent f List.mem_cons_self
      have hnot : ∀ ht, .flag f.1.toList ht ∉ items := by
        intro ht hmem
        obtain ⟨pre, post, hitems⟩ := List.append_of_mem hmem
        exact hout ⟨spell pre, spell post, by rw [hitems]; simp [Item.spell]⟩
      have hrest := unmasksOk_of_absent (fun g hg => habsent g (List.mem_cons_of_mem f hg)) h
      refine ⟨alone_of_absent hout, fun ht hmem => absurd hmem (hnot ht), ?_⟩
      rw [unmask_of_absent hnot]
      exact hrest

theorem not_infix_of_index {names : List String} {text : Text} (hsub : names ⊆ flagNames)
    (hindex : ∀ name ∈ names, index text name.toList = 0) : ∀ name ∈ names, ¬ name.toList <:+: text := by
  intro name hname
  exact (index_eq_zero (flag_plain name (List.mem_append_left _ (hsub hname))).1 text).1 (hindex name hname)

theorem unmaskAll_chars (text : Text) : ∀ fs : List (String × Text),
    unmaskAll fs (text.map .chr) = text.map .chr
  | [] => rfl
  | f :: fs => by
      rw [unmaskAll, unmask_of_absent (by simp)]
      exact unmaskAll_chars text fs

/-- Flags that are not in a text leave it as it is. -/
theorem replace_absent {env : Environ} {fs : List (String × Text)} {text : Text}
    (hin : ∀ f ∈ fs, f ∈ flags env) (habsent : ∀ f ∈ fs, ¬ f.1.toList <:+: text) :
    fs.foldl (fun text flag => subst flag.1 flag.2 text) text = text := by
  have hok : UnmasksOk fs (text.map .chr) := by
    rw [← List.append_nil fs]
    exact unmasksOk_of_absent (by rwa [spell_chars]) trivial
  have hrun := (unmasks_keep hin hok).1
  rwa [unmaskAll_chars, spell_chars] at hrun

theorem unmask_mask_home :
    ∃ masked, replaceFlags site "/gtc/V1".toList "/home/gtm".toList = some masked ∧
      Outref.replaceFlags site masked = "/home/gtm".toList := by
  have hpath : ("/home/gtm".toList : Text) ≠ [] := by decide
  have hhome : ere (orNever (site.get "HOME")) = some (word "/home/gtm".toList) ∧
      standsFor site "##HOME_PATH##".toList = "/home/gtm".toList := by decide +kernel
  have hmask : mask (word "/home/gtm".toList) "##HOME_PATH##".toList ("/home/gtm".toList.map .chr) =
      [.flag "##HOME_PATH##".toList (by decide)] := by decide +kernel
  have hunmask : unmask "##HOME_PATH##".toList (site.get "HOME") [.flag "##HOME_PATH##".toList (by decide)] =
      "/home/gtm".toList.map .chr := by decide +kernel
  have hservers : servers site = [] := by decide +kernel
  have hnohost : hostMasks site = [] := by
    rw [hostMasks, hservers]
    rfl
  -- the masks before HOME and after it match nowhere
  have hbefore : absentAll ((pathMasks site "/gtc/V1".toList).take 3) "/home/gtm".toList = true := by
    decide +kernel
  have hafter : absentAll ((pathMasks site "/gtc/V1".toList).drop 4) "##HOME_PATH##".toList = true := by
    decide +kernel
  have hsplit : pathMasks site "/gtc/V1".toList ++ hostMasks site = (pathMasks site "/gtc/V1".toList).take 3 ++
      ⟨orNever (site.get "HOME"), "##HOME_PATH##"⟩ :: ((pathMasks site "/gtc/V1".toList).drop 4 ++ []) := by
    rw [hnohost]
    rfl
  have hrest := @masksOk_of_absent site ((pathMasks site "/gtc/V1".toList).drop 4) []
    [.flag "##HOME_PATH##".toList (by decide)] hafter trivial
  have hfirst := @masksOk_of_absent site ((pathMasks site "/gtc/V1".toList).take 3)
    (⟨orNever (site.get "HOME"), "##HOME_PATH##"⟩ :: ((pathMasks site "/gtc/V1".toList).drop 4 ++ []))
    ("/home/gtm".toList.map .chr) (by rw [spell_chars]; exact hbefore)
    ⟨_, hhome.1, by rw [hhome.2]; exact clean_word hpath _, by rw [hmask]; exact hrest.1⟩
  have hall : maskAll (pathMasks site "/gtc/V1".toList ++ hostMasks site) ("/home/gtm".toList.map .chr) =
      [.flag "##HOME_PATH##".toList (by decide)] := by
    rw [hsplit, hfirst.2, maskAll, hhome.1, Option.map_some, Option.getD_some, hmask, hrest.2]
    rfl
  -- no other flag is found
  have hflags : flags site = (flags site).take 13 ++ ("##HOME_PATH##", site.get "HOME") ::
      ((flags site).drop 14 ++ []) := rfl
  have habsent : (∀ name ∈ flagNames.take 13, index "##HOME_PATH##".toList name.toList = 0) ∧
      ∀ name ∈ flagNames.drop 14, index "/home/gtm".toList name.toList = 0 := by
    unfold flagNames
    simp only [List.take_succ_cons, List.take_zero, List.drop_succ_cons, List.drop_zero,
      List.forall_mem_cons]
    repeat rw [String.toList_ofList]
    decide +kernel
  have hexpand : expand (site.get "HOME") "##HOME_PATH##".toList = site.get "HOME" := by decide +kernel
  have hrun : maskPaths (pathMasks site "/gtc/V1".toList ++ hostMasks site) "/home/gtm".toList =
      some "##HOME_PATH##".toList := by decide +kernel
  have htimes : timeRules.all (fun rule => !found rule.1 "##HOME_PATH##".toList) = true := by
    simp only [timeRules, fileRule, List.all_cons, List.all_nil, found, String.toList_append]
    repeat rw [String.toList_ofList]
    decide +kernel
  refine unmask_mask ?_ ?_ ?_
  · rw [hsplit]
    exact hfirst.1
  · rw [hall, hflags]
    refine unmasksOk_of_absent ?_ ⟨alone_singleton _, fun _ _ => hexpand, ?_⟩
    · intro f hf
      refine not_infix_of_index (List.take_subset 13 flagNames) habsent.1 f.1 ?_
      rw [← flags_names site, ← List.map_take]
      exact List.mem_map_of_mem hf
    · rw [hunmask]
      refine unmasksOk_of_absent ?_ trivial
      intro f hf
      rw [spell_chars]
      refine not_infix_of_index (List.drop_subset 14 flagNames) habsent.2 f.1 ?_
      rw [← flags_names site, ← List.map_drop]
      exact List.mem_map_of_mem hf
  · intro text htext rule hrule
    rw [hrun] at htext
    obtain rfl := Option.some.inj htext
    simpa using List.all_eq_true.1 htimes rule hrule

/-- **A dot in the name of the host masks another word.** -/
theorem dot_in_host : ∃ masked, replaceFlags site "/gtc/V1".toList "on axb".toList = some masked ∧
    Outref.replaceFlags site masked = "on a.b".toList ∧ "on a.b".toList ≠ "on axb".toList := by
  have hrun : maskPaths (pathMasks site "/gtc/V1".toList ++ hostMasks site) "on axb".toList =
      some "on ##TEST_HOST##".toList := by decide +kernel
  have htimes : timeRules.all (fun rule => !found rule.1 "on ##TEST_HOST##".toList) = true := by
    simp only [timeRules, fileRule, List.all_cons, List.all_nil, found, String.toList_append]
    repeat rw [String.toList_ofList]
    decide +kernel
  have hmark : markTimes "on ##TEST_HOST##".toList = "on ##TEST_HOST##".toList :=
    markTimes_of_absent fun rule hrule => by simpa using List.all_eq_true.1 htimes rule hrule
  -- of all flags only that of the host is found
  have habsent : (∀ name ∈ flagNames.take 15, index "on ##TEST_HOST##".toList name.toList = 0) ∧
      ∀ name ∈ flagNames.drop 16, index "on a.b".toList name.toList = 0 := by
    unfold flagNames
    simp only [List.take_succ_cons, List.take_zero, List.drop_succ_cons, List.drop_zero,
      List.forall_mem_cons]
    repeat rw [String.toList_ofList]
    decide +kernel
  have hflags : flags site = (flags site).take 15 ++ ("##TEST_HOST##", site.get "tst_org_host") ::
      (flags site).drop 16 := rfl
  have hbefore := replace_absent (fun f hf => List.mem_of_mem_take hf) fun f hf =>
    not_infix_of_index (List.take_subset 15 flagNames) habsent.1 f.1 (by
      rw [← flags_names site, ← List.map_take]
      exact List.mem_map_of_mem hf)
  have hafter := replace_absent (fun f hf => List.mem_of_mem_drop hf) fun f hf =>
    not_infix_of_index (List.drop_subset 16 flagNames) habsent.2 f.1 (by
      rw [← flags_names site, ← List.map_drop]
      exact List.mem_map_of_mem hf)
  have hhost : subst "##TEST_HOST##" (site.get "tst_org_host") "on ##TEST_HOST##".toList =
      "on a.b".toList := by decide +kernel
  refine ⟨"on ##TEST_HOST##".toList, ?_, ?_, by decide⟩
  · rw [replaceFlags, hrun, Option.map_some, hmark]
  · rw [Outref.replaceFlags, hflags, List.foldl_append, hbefore, List.foldl_cons, hhost, hafter]

end YottaTest.Inref
