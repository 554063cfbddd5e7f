import VfsOss.Proto.Proofs.HeaderProofs
import VfsOss.Sm.PathBuffers

/-!
# Proofs: when the path buffers hold

The parser bounds the file name and the host name, nothing bounds their sum with the data directory.
-/

namespace VfsOss

open CLib

variable {cfg : Cfg} {h header : HttpHeader} {data rest : Bytes}

/-- What the parser stores is cut to the fields of `t_uc_oss_http_header`. -/
theorem parseHeader_bounds (hp : SmClient.parseHeader h data = (true, header, rest)) :
    header.filename.length ≤ 254 ∧ header.hostname.length ≤ 127 := by
  have hok : (parseFields SmClient.fields h data).1 = true := congrArg Prod.fst hp
  obtain ⟨values, hcarries, hstored⟩ := carries_of_parseFields hok
  have hheader : header = storeAll SmClient.fields values h := by
    rw [← hstored]
    exact (congrArg (fun r : Bool × HttpHeader × Bytes => r.2.1) hp).symm
  cases hcarries with | cons _ _ filename _ _ hcarries =>
  cases hcarries with | cons _ _ type _ _ hcarries =>
  cases hcarries with | cons _ _ datalen _ _ hcarries =>
  cases hcarries with | cons _ _ start _ _ hcarries =>
  cases hcarries with | cons _ _ end_ _ _ hcarries =>
  cases hcarries with | cons _ _ filemd5 _ _ hcarries =>
  cases hcarries with | cons _ _ idx _ _ hcarries =>
  cases hcarries with | cons _ _ count _ _ hcarries =>
  cases hcarries with | cons _ _ hostname _ _ hcarries =>
  cases hcarries
  have hfilename : header.filename = snprintf 255 filename := by rw [hheader]; rfl
  have hhostname : header.hostname = snprintf 128 hostname := by rw [hheader]; rfl
  rw [hfilename, hhostname, snprintf, snprintf, List.length_take, List.length_take]
  omega

theorem snprintf_of_fits {n : Nat} {s : Bytes} (hs : s.length ≤ n - 1) : snprintf n s = s :=
  List.take_of_length_le hs

/-- A text that is cut is not cut again at a larger size. -/
theorem snprintf_snprintf {m n : Nat} (h : n ≤ m) (s : Bytes) : snprintf m (snprintf n s) = snprintf n s := by
  refine snprintf_of_fits ?_
  rw [snprintf, List.length_take]
  omega

theorem length_getLocaldir (cfg : Cfg) (hostname srcfile : Bytes) :
    (getLocaldir cfg hostname srcfile).length =
      cfg.dstDatadir.length + hostname.length + (basename (snprintf 256 srcfile)).length + 2 := by
  have hslash : (txt "/").length = 1 := rfl
  unfold getLocaldir
  simp only [List.length_append, hslash]
  omega

/-- A text is cut exactly when it does not fit. -/
theorem snprintf_eq_self_iff {n : Nat} {s : Bytes} : snprintf n s = s ↔ s.length ≤ n - 1 := by
  constructor
  · intro hs
    rw [← hs, snprintf, List.length_take]
    omega
  · exact snprintf_of_fits

/-- The paths of a request fit their buffers if and only if the data directory, the host name, the
last component of the file name and the suffix of the block have at most 253 bytes together. -/
theorem pathsFit_iff (hp : SmClient.parseHeader h data = (true, header, rest)) :
    PathsFit cfg header ↔
      cfg.dstDatadir.length + header.hostname.length + (basename header.filename).length +
        (blockSuffix header.idx header.count).length ≤ 253 := by
  obtain ⟨hfile, hhost⟩ := parseHeader_bounds hp
  have hfilename : (headerTask header).1.filename = header.filename := snprintf_of_fits (by omega)
  have hhostname : (headerTask header).1.hostname = header.hostname := snprintf_of_fits (by omega)
  have hlen := length_getLocaldir cfg header.hostname header.filename
  rw [snprintf_of_fits (n := 256) (by omega)] at hlen
  have hwritten : (∃ path, getLocaldirInto cfg header.hostname header.filename outfile = .ok path) ↔
      0 + (getLocaldir cfg header.hostname header.filename).length + 1 ≤ outfile.length :=
    strcpy_ok_iff
  rw [show outfile.length = 256 from List.length_replicate] at hwritten
  have htmp : ∀ opens fs, (openTmpLocalfile4Write cfg opens fs (headerTask header).1
      (headerTask header).2).1.tmpfile =
        snprintf 256 (getLocaldir cfg header.hostname header.filename ++
          blockSuffix header.idx header.count) := by
    intro opens fs
    rw [← hfilename, ← hhostname, blockSuffix, ← List.append_assoc, ← List.append_assoc,
      ← List.append_assoc]
    unfold openTmpLocalfile4Write
    dsimp only
    split <;> rfl
  have hcut := snprintf_eq_self_iff (n := 256)
    (s := getLocaldir cfg header.hostname header.filename ++ blockSuffix header.idx header.count)
  rw [List.length_append, hlen] at hcut
  constructor
  · intro hfit
    have hsuffix := hfit.suffix false FileSystem.empty
    rw [htmp, hfilename, hhostname, hcut] at hsuffix
    omega
  · intro hle
    refine ⟨?_, ?_⟩
    · rw [hfilename, hhostname, hwritten, hlen]
      omega
    · intro opens fs
      rw [htmp, hfilename, hhostname, hcut]
      omega

/-- A request for a file. -/
def requestFor (filename : Bytes) : Bytes :=
  txt "filename: " ++ filename ++ txt "\r\ntype: 1\r\ndatalen: 1\r\nstart: 0\r\nend: 0\r\n" ++
    txt "filemd5: 0\r\nidx: 1\r\ncount: 1\r\nhostname: h\r\n\r\n"

/-- The header that `parse_header` reads from a request. -/
def requestHeader (filename : Bytes) : HttpHeader :=
  (SmClient.parseHeader .zero (requestFor filename)).2.1

theorem parseHeader_requestFor : (SmClient.parseHeader .zero (requestFor (txt "/a/b"))).1 = true := by
  decide +kernel

theorem pathsFit_iff_requestFor : PathsFit .sample (requestHeader (txt "/a/b")) :=
  (pathsFit_iff (Prod.ext parseHeader_requestFor rfl)).mpr (by decide +kernel)

/-- A file name that fills its field: the header is accepted, and the path is written over the end of
the array. -/
theorem getLocaldirInto_overrun :
    (SmClient.parseHeader .zero (requestFor (List.replicate 254 97))).1 = true ∧
    ¬ ∃ path, getLocaldirInto .sample (headerTask (requestHeader (List.replicate 254 97))).1.hostname
      (headerTask (requestHeader (List.replicate 254 97))).1.filename outfile = .ok path := by
  refine ⟨by decide +kernel, ?_⟩
  rw [getLocaldirInto, sprintf, strcpy_ok_iff]
  decide +kernel

end VfsOss
