import VfsOss.Sm.Proofs.QueryProofs
import VfsOss.Uc.LackReply
import VfsOss.Sm.Proofs.RoundTripProofs
import VfsOss.Sm.Proofs.RunPlaceProofs

/-!
# Proofs: when the list of missing blocks arrives as it was sent

The pieces of a list that is not cut come back one by one, and only a piece without a file name is skipped. A
list that is cut has lost the colon at its end, so fewer pieces come back than records went to `TASK_HOME`.
-/

namespace VfsOss

open CLib

variable {cfg : Cfg} {s : TaskStore} {t : Tasklist} {w r : Bytes} {n : Nat} {hostname : Bytes}

/-! ## The words of a piece -/

theorem scanWord_blank (hw : w ≠ []) (hb : (32 : UInt8) ∉ w) (r : Bytes) :
    scanWord (w ++ 32 :: r) = some (w, 32 :: r) := by
  have hne : ∀ b ∈ w, (fun b : UInt8 => decide (b ≠ 32)) b = true := fun b hm =>
    decide_eq_true fun h => hb (h ▸ hm)
  have htake : (w ++ 32 :: r).takeWhile (· ≠ 32) = w := by
    rw [List.takeWhile_append_of_pos hne, List.takeWhile_cons_of_neg (by simp), List.append_nil]
  have hdrop : (w ++ 32 :: r).dropWhile (· ≠ 32) = 32 :: r := by
    rw [List.dropWhile_append_of_pos hne, List.dropWhile_cons_of_neg (by simp)]
  rw [scanWord, htake, hdrop, if_neg hw]

theorem scanWord_end (hw : w ≠ []) (hb : (32 : UInt8) ∉ w) : scanWord w = some (w, []) := by
  have hne : ∀ b ∈ w, (fun b : UInt8 => decide (b ≠ 32)) b = true := fun b hm =>
    decide_eq_true fun h => hb (h ▸ hm)
  have htake : w.takeWhile (· ≠ 32) = w := List.takeWhile_eq_self_iff.mpr hne
  have hdrop : w.dropWhile (· ≠ 32) = [] := List.dropWhile_eq_nil_iff.mpr hne
  rw [scanWord, htake, hdrop, if_neg hw]

/-- A number behind a blank is read from its first byte. -/
theorem dropWhile_blank (n : Int) (r : Bytes) : (32 :: (fmtInt n ++ r)).dropWhile isSpace = fmtInt n ++ r := by
  have hspace : isSpace 32 = true := rfl
  rw [List.dropWhile_cons_of_pos hspace]
  cases hf : fmtInt n with
  | nil => exact absurd hf (fmtInt_ne_nil n)
  | cons c text =>
    have hc : isSpace c = false := by
      rcases mem_fmtInt (n := n) (b := c) (by rw [hf]; exact List.mem_cons_self) with rfl | hd
      · rfl
      · simp only [isDigit, Bool.and_eq_true, decide_eq_true_eq] at hd
        simp only [isSpace, Bool.or_eq_false_iff, Bool.and_eq_false_iff, decide_eq_false_iff_not]
        refine ⟨?_, Or.inr ?_⟩
        · rintro rfl
          exact absurd hd.1 (by decide)
        · exact fun h => absurd (UInt8.le_trans hd.1 h) (by decide)
    rw [List.cons_append, List.dropWhile_cons_of_neg (by rw [hc]; exact Bool.false_ne_true)]

theorem blank_not_mem_fmtInt (n : Int) : (32 : UInt8) ∉ fmtInt n := not_mem_fmtInt (by decide) rfl

theorem scanThree_named (hw : w ≠ []) (hb : (32 : UInt8) ∉ w) (i c : Int) :
    scanThree (w ++ 32 :: (fmtInt i ++ 32 :: fmtInt c)) = some (w, fmtInt i, fmtInt c) := by
  have hlast : (32 :: fmtInt c).dropWhile isSpace = fmtInt c := by
    have h := dropWhile_blank c []
    rwa [List.append_nil] at h
  rw [scanThree, scanWord_blank hw hb, Option.bind_some, dropWhile_blank,
    scanWord_blank (fmtInt_ne_nil i) (blank_not_mem_fmtInt i), Option.bind_some, hlast,
    scanWord_end (fmtInt_ne_nil c) (blank_not_mem_fmtInt c), Option.map_some]

theorem scanThree_unnamed (r : Bytes) : scanThree (32 :: r) = none := by
  rw [scanThree, scanWord, List.takeWhile_cons_of_neg (by simp), if_pos rfl, Option.bind_none]

/-! ## The pieces -/

/-- What the list holds of a record in front of its colon. -/
def piece (t : Tasklist) : Bytes :=
  t.base.filename ++ 32 :: (fmtInt t.sub.idx ++ 32 :: fmtInt t.sub.count)

theorem unokText_eq (t : Tasklist) : unokText t = piece t ++ [58] := by
  show t.base.filename ++ [32] ++ fmtInt t.sub.idx ++ [32] ++ fmtInt t.sub.count ++ [58] = _
  simp only [piece, List.append_assoc, List.cons_append, List.nil_append]

theorem Tasklist.Listable.colon (h : t.Listable) : (58 : UInt8) ∉ piece t := by
  have hnum : ∀ k, (58 : UInt8) ∉ fmtInt k := fun k => not_mem_fmtInt (by decide) rfl
  have hname : (58 : UInt8) ∉ t.base.filename := fun hm => (h.filename.2 _ hm).2.2.1 rfl
  simp only [piece, List.mem_append, List.mem_cons, not_or]
  exact ⟨hname, by decide, hnum _, by decide, hnum _⟩

theorem scanThree_piece (h : t.Listable) : scanThree (piece t) =
    if t.base.filename = [] then none
    else some (t.base.filename, fmtInt t.sub.idx, fmtInt t.sub.count) := by
  split
  · next hn =>
    rw [piece, hn, List.nil_append]
    exact scanThree_unnamed _
  · next hn => exact scanThree_named hn (fun hm => (h.filename.2 _ hm).2.1 rfl) _ _

/-- A piece gives its record, if it has a file name. -/
theorem doReqLoop_piece (h : t.Listable) (n : Nat) (r : Bytes) :
    UcHttp.doReqLoop (n + 1) (unokText t ++ r) =
      if t.base.filename = [] then UcHttp.doReqLoop n r else t.item :: UcHttp.doReqLoop n r := by
  have htext : unokText t ++ r = piece t ++ 58 :: r := by
    rw [unokText_eq, List.append_assoc]
    rfl
  have htake : (piece t ++ 58 :: r).take (piece t).length = piece t := List.take_left
  have hdrop : (piece t ++ 58 :: r).drop ((piece t).length + 1) = r := by
    rw [← List.drop_drop, List.drop_left]
    rfl
  rw [UcHttp.doReqLoop, htext, strchr_append h.colon]
  dsimp only
  rw [htake, hdrop, scanThree_piece h]
  by_cases hn : t.base.filename = []
  · rw [if_pos hn, if_pos hn]
  · rw [if_neg hn, if_neg hn]
    dsimp only
    rw [atoi_fmtInt h.idx.1 h.idx.2, atoi_fmtInt h.count.1 h.count.2]
    rfl

/-- **A list that is not cut** gives the records that have a file name, in order. -/
theorem doReqLoop_list (ts : List Tasklist) : ∀ n, (∀ t ∈ ts, t.Listable) → ts.length ≤ n →
    UcHttp.doReqLoop n (ts.flatMap unokText) = (ts.filter fun t => t.base.filename ≠ []).map Tasklist.item := by
  induction ts with
  | nil =>
    intro n _ _
    cases n with
    | zero => rfl
    | succ n => rfl
  | cons t ts ih =>
    intro n hl hn
    cases n with
    | zero => exact absurd hn (Nat.not_succ_le_zero _)
    | succ n =>
      rw [List.flatMap_cons, doReqLoop_piece (hl t List.mem_cons_self),
        ih n (fun u hu => hl u (List.mem_cons_of_mem _ hu)) (Nat.le_of_succ_le_succ hn), List.filter_cons]
      by_cases hname : t.base.filename = []
      · rw [if_pos hname, if_neg (by simp [hname])]
      · rw [if_neg hname, if_pos (by simp [hname]), List.map_cons]

/-! ## A list that is cut -/

/-- No more calls than there are colons. -/
theorem doReqLoop_length (n : Nat) : ∀ s, (UcHttp.doReqLoop n s).length ≤ s.count 58 := by
  induction n with
  | zero => exact fun _ => Nat.zero_le _
  | succ n ih =>
    intro s
    rw [UcHttp.doReqLoop]
    cases hs : strchr s 58 with
    | none => exact Nat.zero_le _
    | some i =>
      have hcount : (s.drop (i + 1)).count 58 + 1 ≤ s.count 58 := by
        conv_rhs => rw [(strchr_split hs).1, List.count_append, List.count_cons_self]
        omega
      have hrest := ih (s.drop (i + 1))
      dsimp only
      split
      · rw [List.length_cons]
        omega
      · omega

theorem count_list (ts : List Tasklist) (hl : ∀ t ∈ ts, t.Listable) :
    (ts.flatMap unokText).count 58 = ts.length := by
  induction ts with
  | nil => rfl
  | cons t ts ih =>
    have hpiece : (piece t).count 58 = 0 := List.count_eq_zero.mpr (hl t List.mem_cons_self).colon
    rw [List.flatMap_cons, List.count_append, unokText_eq, List.count_append, hpiece,
      ih fun u hu => hl u (List.mem_cons_of_mem _ hu), List.length_cons]
    show 0 + 1 + ts.length = ts.length + 1
    omega

/-- **A list that is cut** gives fewer records than it was made of. -/
theorem doReq_cut {ts : List Tasklist} {k : Nat} (hl : ∀ t ∈ ts, t.Listable)
    (hk : k < (ts.flatMap unokText).length) : (UcHttp.doReq ((ts.flatMap unokText).take k)).length < ts.length := by
  have hne : ts ≠ [] := by
    rintro rfl
    exact absurd hk (Nat.not_lt_zero _)
  obtain ⟨us, t, rfl⟩ : ∃ us t, ts = us ++ [t] := ⟨_, _, (List.dropLast_append_getLast hne).symm⟩
  have htext : (us ++ [t]).flatMap unokText = (us.flatMap unokText ++ piece t) ++ [58] := by
    rw [List.flatMap_append, List.flatMap_singleton, unokText_eq, List.append_assoc]
  have hcount := count_list (us ++ [t]) hl
  rw [htext, List.count_append, show [(58 : UInt8)].count 58 = 1 from rfl] at hcount
  rw [htext, List.length_append, show [(58 : UInt8)].length = 1 from rfl] at hk
  have hcut : ((us ++ [t]).flatMap unokText).take k <+: us.flatMap unokText ++ piece t := by
    rw [htext, List.take_append_of_le_length (by omega)]
    exact List.take_prefix _ _
  have hle := hcut.sublist.count_le 58
  have hcalls := doReqLoop_length (((us ++ [t]).flatMap unokText).take k).length (((us ++ [t]).flatMap unokText).take k)
  show (UcHttp.doReqLoop _ _).length < _
  omega

/-! ## The reply -/

theorem strstr_within (a r needle : Bytes) : ∃ k, strstr (a ++ (needle ++ r)) needle = some k := by
  cases hs : strstr (a ++ (needle ++ r)) needle with
  | none =>
    refine absurd ?_ (strstr_none (i := a.length) hs)
    rw [List.drop_left]
    exact List.prefix_append _ _
  | some k => exact ⟨k, rfl⟩

/-- The reply, in the pieces that are parsed. -/
theorem createHeader_reply (list : Bytes) : SmClient.createHeader list =
    txt "GET /question/19973178 HTTP/1.0\r\n" ++ (txt "filename: " ++ (list ++ (crlf ++
      (txt "type: " ++ (txt "251" ++ (crlf ++ crlf)))))) := by
  show txt "GET /question/19973178 HTTP/1.0\r\n" ++ txt "filename: " ++ list ++ crlf ++
    (txt "type: " ++ (txt "251" ++ (crlf ++ crlf))) = _
  simp only [List.append_assoc]

/-- What `uc_http` takes apart is the list as far as the header holds it. -/
theorem checkRequest_reply {list : Bytes} (h0 : (0 : UInt8) ∉ list) (h13 : (13 : UInt8) ∉ list)
    (h : HttpHeader) (stale : Bytes) :
    (UcHttp.checkRequest h (cstr (SmClient.createHeader list ++ stale)) (SmClient.createHeader list).length).2.2 =
      UcHttp.doReq (snprintf 255 list) := by
  have hzero : (0 : UInt8) ∉ SmClient.createHeader list := by
    rw [createHeader_reply]
    simp only [List.mem_append, not_or]
    exact ⟨by decide, by decide, h0, by decide, by decide, by decide, by decide, by decide⟩
  rw [cstr_append_of_not_mem hzero]
  generalize cstr stale = tail
  have hlong : ¬ (SmClient.createHeader list).length < 14 := by
    rw [createHeader_reply, List.length_append, show (txt "GET /question/19973178 HTTP/1.0\r\n").length = 33 from rfl]
    omega
  have hget : txt "GET /" <+: SmClient.createHeader list ++ tail := by
    rw [createHeader_reply, List.append_assoc]
    exact (show txt "GET /" <+: txt "GET /question/19973178 HTTP/1.0\r\n" by decide).trans (List.prefix_append _ _)
  have hdrop : (SmClient.createHeader list ++ tail).drop 5 = txt "question/19973178" ++ (txt " HTTP/" ++
      (txt "1.0\r\n" ++ (txt "filename: " ++ (list ++ (crlf ++ (txt "type: " ++ (txt "251" ++
        (crlf ++ crlf ++ tail)))))))) := by
    rw [createHeader_reply]
    simp only [List.append_assoc]
    rfl
  have hend : ∃ p, strstr ((SmClient.createHeader list ++ tail).drop 5) (crlf ++ crlf) = some p := by
    have hsplit : (SmClient.createHeader list ++ tail).drop 5 = (txt "question/19973178" ++ (txt " HTTP/" ++
        (txt "1.0\r\n" ++ (txt "filename: " ++ (list ++ (crlf ++ (txt "type: " ++ txt "251"))))))) ++
        ((crlf ++ crlf) ++ tail) := by
      rw [hdrop]
      simp only [List.append_assoc]
    rw [hsplit]
    exact strstr_within _ _ _
  have hhttp : strstr ((SmClient.createHeader list ++ tail).drop 5) (txt " HTTP/") = some 17 := by
    rw [hdrop, ← List.append_assoc]
    exact strstr_append (show strstr (txt "question/19973178" ++ txt " HTTP/") (txt " HTTP/") = some 17 by decide) _
  have hcarries : Carries (UcHttp.fields.map Field.item) [list, txt "251"]
      (SmClient.createHeader list ++ tail) := by
    have htype := Carries.next (txt "type: ") (show strstr (txt "251" ++ crlf) crlf = some 3 by decide)
      (.nil (crlf ++ tail))
    have hlist := Carries.line (txt "GET /question/19973178 HTTP/1.0\r\n") (txt "filename: ") (by decide)
      (line_of_not_mem h13) htype
    rw [createHeader_reply]
    simp only [List.append_assoc] at hlist ⊢
    exact hlist
  obtain ⟨q, hq⟩ := parseFields_carried hcarries h
  obtain ⟨p, hp⟩ := hend
  unfold UcHttp.checkRequest
  rw [if_neg hlong, if_neg (not_not.mpr hget), hp, hhttp]
  dsimp only
  rw [if_pos (by decide), UcHttp.parseHeader, hq]
  rfl

/-! ## The records that go into the list -/

theorem Tasklist.Listable.not_mem {b : UInt8} (h : t.Listable) (hb : b = 0 ∨ b = 13) : b ∉ unokText t := by
  have hnum : ∀ k, b ∉ fmtInt k := fun k => by
    rcases hb with rfl | rfl
    · exact not_mem_fmtInt (by decide) rfl
    · exact not_mem_fmtInt (by decide) rfl
  have hname : b ∉ t.base.filename := fun hm => by
    rcases hb with rfl | rfl
    · exact (h.filename.2 _ hm).1 rfl
    · exact (h.filename.2 _ hm).2.2.2.1 rfl
  have hsep : b ≠ 32 ∧ b ≠ 58 := by
    rcases hb with rfl | rfl
    · exact ⟨by decide, by decide⟩
    · exact ⟨by decide, by decide⟩
  rw [unokText_eq, piece]
  simp only [List.mem_append, List.mem_cons, List.not_mem_nil, or_false, not_or]
  exact ⟨⟨hname, hsep.1, hnum _, hsep.1, hnum _⟩, hsep.2⟩

theorem Tasklist.Listable.sized (h : t.Listable) : t.Sized := ⟨h.filename.1, h.idx, h.count⟩

/-- **What a query lists**: the records it was asked for, unless the list is nearly full. -/
theorem getTaskUnok_list (cfg : Cfg) (hostname : Bytes) (hp : WellPlaced s)
    (hl : ∀ t ∈ s.vfstask .wait ++ s.vfstask .waitTmp, t.Listable) :
    ∃ ts, ts <+: asked cfg s hostname ∧
      (getTaskUnok cfg s hostname).1 = SmClient.createHeader (ts.flatMap unokText) ∧
      (getTaskUnok cfg s hostname).2.1 = ts.map Tasklist.popped ∧
      (ts = asked cfg s hostname ∨ 10240 ≤ (ts.flatMap unokText).length + 280) := by
  obtain ⟨ts, hr⟩ := repliesFrom cfg hostname hp fun t ht => (hl t ht).sized
  refine ⟨ts, hr.front, hr.reply, hr.out, hr.full.imp id ?_⟩
  rintro ⟨us, hus, hlen, hbig⟩
  obtain ⟨vs, rfl⟩ := List.prefix_of_prefix_length_le hr.front hus (by omega)
  obtain ⟨u, rfl⟩ := List.length_eq_one_iff.mp (show vs.length = 1 by rw [List.length_append] at hlen; omega)
  have hmem : u ∈ asked cfg s hostname := hus.subset (List.mem_append_right _ (List.mem_singleton_self u))
  have htext := (hl u (List.mem_of_mem_take (List.mem_filter.mp hmem).1)).sized.length
  rw [List.flatMap_append, List.flatMap_singleton, List.length_append] at hbig
  omega

/-- The calls for the reply to a query. -/
structure RepliedWith (cfg : Cfg) (s : TaskStore) (hostname : Bytes) (ts : List Tasklist) : Prop where
  listable : ∀ t ∈ ts, t.Listable
  list : ts <+: asked cfg s hostname
  items : (getTaskUnok cfg s hostname).2.1.map Tasklist.item = ts.map Tasklist.item
  calls : ∀ (h : HttpHeader) (stale : Bytes), (UcHttp.checkRequest h
    (cstr ((getTaskUnok cfg s hostname).1 ++ stale)) (getTaskUnok cfg s hostname).1.length).2.2 =
      UcHttp.doReq (snprintf 255 (ts.flatMap unokText))
  all : ts = asked cfg s hostname ∨ 10240 ≤ (ts.flatMap unokText).length + 280

theorem repliedWith (cfg : Cfg) (hostname : Bytes) (hp : WellPlaced s)
    (hl : ∀ t ∈ s.vfstask .wait ++ s.vfstask .waitTmp, t.Listable) : ∃ ts, RepliedWith cfg s hostname ts := by
  obtain ⟨ts, hpre, hreply, hout, hall⟩ := getTaskUnok_list cfg hostname hp hl
  have hlts : ∀ t ∈ ts, t.Listable := fun t ht =>
    hl t (List.mem_of_mem_take (List.mem_filter.mp (hpre.subset ht)).1)
  have hnot : ∀ b : UInt8, b = 0 ∨ b = 13 → b ∉ ts.flatMap unokText := by
    intro b hb hm
    obtain ⟨t, ht, hbt⟩ := List.mem_flatMap.mp hm
    exact (hlts t ht).not_mem hb hbt
  refine ⟨ts, hlts, hpre, ?_, fun h stale => ?_, hall⟩
  · rw [hout, List.map_map]
    rfl
  · rw [hreply]
    exact checkRequest_reply (hnot 0 (Or.inl rfl)) (hnot 13 (Or.inr rfl)) h stale

/-- The calls for a list that fits. -/
theorem doReq_fits {ts : List Tasklist} (hl : ∀ t ∈ ts, t.Listable) (hlen : (ts.flatMap unokText).length ≤ 254) :
    UcHttp.doReq (snprintf 255 (ts.flatMap unokText)) =
      (ts.filter fun t => t.base.filename ≠ []).map Tasklist.item := by
  have hfuel : ts.length ≤ (ts.flatMap unokText).length := by
    rw [← count_list ts hl]
    exact List.count_le_length
  rw [snprintf_of_le (by omega)]
  exact doReqLoop_list ts _ hl hfuel

/-- A list that arrives as it was sent fits. -/
theorem fits_of_lackRoundTrips (hp : WellPlaced s)
    (hl : ∀ t ∈ s.vfstask .wait ++ s.vfstask .waitTmp, t.Listable) (h : LackRoundTrips cfg s hostname) :
    FitsReply cfg s hostname := by
  obtain ⟨ts, hc⟩ := repliedWith cfg hostname hp hl
  have hrt := h .zero []
  rw [hc.calls, hc.items] at hrt
  have hlen : (ts.flatMap unokText).length ≤ 254 := by
    by_contra hlong
    have hcut := doReq_cut (k := 254) hc.listable (Nat.lt_of_not_le hlong)
    rw [show (ts.flatMap unokText).take 254 = snprintf 255 (ts.flatMap unokText) from rfl, hrt,
      List.length_map] at hcut
    exact Nat.lt_irrefl _ hcut
  obtain rfl : ts = asked cfg s hostname := hc.all.resolve_right (by omega)
  rw [doReq_fits hc.listable hlen] at hrt
  have hsame := congrArg List.length hrt
  rw [List.length_map, List.length_map] at hsame
  have hfilter := List.filter_eq_self.mp (List.filter_sublist.eq_of_length hsame)
  exact ⟨hlen, fun t ht => of_decide_eq_true (hfilter t ht)⟩

/-- A list that fits arrives as it was sent. -/
theorem lackRoundTrips_of_fits (hp : WellPlaced s)
    (hl : ∀ t ∈ s.vfstask .wait ++ s.vfstask .waitTmp, t.Listable) (hfit : FitsReply cfg s hostname) :
    LackRoundTrips cfg s hostname := by
  intro h stale
  obtain ⟨ts, hc⟩ := repliedWith cfg hostname hp hl
  have hle : (ts.flatMap unokText).length ≤ ((asked cfg s hostname).flatMap unokText).length := by
    obtain ⟨us, hus⟩ := hc.list
    rw [← hus, List.flatMap_append, List.length_append]
    omega
  have hlen := Nat.le_trans hle hfit.length
  obtain rfl : ts = asked cfg s hostname := hc.all.resolve_right (by omega)
  have hfilter : ((asked cfg s hostname).filter fun t => t.base.filename ≠ []) = asked cfg s hostname :=
    List.filter_eq_self.mpr fun t ht => decide_eq_true (hfit.named t ht)
  rw [hc.calls, hc.items, doReq_fits hc.listable hlen, hfilter]

/-- **The list of missing blocks arrives as it was sent**, from any queues, exactly if the texts of the records
that are asked for have at most 254 bytes and all of these records have a file name. -/
theorem lack_list_round_trip_iff (cfg : Cfg) (s : TaskStore) (hostname : Bytes) (hp : WellPlaced s)
    (hl : ∀ t ∈ s.vfstask .wait ++ s.vfstask .waitTmp, t.Listable) :
    LackRoundTrips cfg s hostname ↔ FitsReply cfg s hostname :=
  ⟨fits_of_lackRoundTrips hp hl, lackRoundTrips_of_fits hp hl⟩

theorem waitingBlocks_listable {filename : Bytes} {n : Nat} (hlen : filename.length ≤ 255)
    (hname : ∀ b ∈ filename, b ≠ 0 ∧ b ≠ 32 ∧ b ≠ 58 ∧ b ≠ 13 ∧ b ≠ 10) (hn : n < 2 ^ 31) :
    ∀ t ∈ (waitingBlocks filename n).vfstask .wait ++ (waitingBlocks filename n).vfstask .waitTmp, t.Listable := by
  intro t ht
  rcases List.mem_append.mp ht with ht | ht
  · obtain ⟨a, ha, rfl⟩ := List.mem_map.mp (show t ∈ (List.range n).map _ from ht)
    have hlt := List.mem_range.mp ha
    exact ⟨⟨hlen, hname⟩, by show _ ≤ (a + 1 : Int) ∧ (a + 1 : Int) < _; omega,
      by show _ ≤ (n : Int) ∧ (n : Int) < _; omega⟩
  · exact absurd ht List.not_mem_nil

theorem lack_list_round_trip_two : LackRoundTrips .sample (waitingBlocks (txt "/d/f") 2) [] :=
  (lack_list_round_trip_iff .sample _ [] (waitingBlocks_placed _ 2)
    (waitingBlocks_listable (by decide) (by decide +kernel) (by decide))).mpr
    ⟨by decide +kernel, by decide +kernel⟩

/-- One block of a file whose name has 250 bytes: the text of its record has 255, the header keeps 254, and the
block is not asked for although its record is gone. -/
theorem long_list_loses_block :
    let s := waitingBlocks (List.replicate 250 97) 1
    (WellPlaced s ∧ ∀ t ∈ s.vfstask .wait ++ s.vfstask .waitTmp, t.Listable) ∧ ¬ LackRoundTrips .sample s [] := by
  intro s
  have hl : ∀ t ∈ s.vfstask .wait ++ s.vfstask .waitTmp, t.Listable :=
    waitingBlocks_listable (by rw [List.length_replicate]; decide)
      (fun b hb => by rw [List.eq_of_mem_replicate hb]; decide) (by decide)
  refine ⟨⟨waitingBlocks_placed _ 1, hl⟩, fun h => ?_⟩
  have hlen := (fits_of_lackRoundTrips (waitingBlocks_placed _ 1) hl h).length
  exact absurd hlen (by decide +kernel)

end VfsOss
