import Daybook.Config.File
import Daybook.Proofs.Json.Decode
import Daybook.Proofs.Viewer.Remote
import Daybook.Proofs.Viewer.Runs

/-! # The configuration in files

A configuration that is written to a file is loaded from it, be it the text that a viewer prints or the
one that a bridge serves. -/

namespace Daybook

open Json

namespace Config

variable {s : Style} {c : Config}

theorem fromUTF8?_toUTF8 (text : String) : String.fromUTF8? text.toUTF8 = some text := by
  unfold String.fromUTF8?
  exact dif_pos text.isValidUTF8

/-- A file with a written configuration, whatever blanks there are after it. -/
theorem load_write (hs : s.IsBlank) (c : Config) (level : Nat) {rest : List Char}
    (hrest : Reading.Blank rest) {text : String}
    (htext : text.toList = c.toJson.write s level ++ rest) :
    load (.content text.toUTF8) = .ok c := by
  have hread : Decoder.run (decode (ε := Empty)) text.toList = .ok c := by
    rw [htext, Decoder.run_of_holds (holds_write hs c.toJson level hrest)]
    exact inverts_decode c _ (by decide)
  simp only [load, fromUTF8?_toUTF8, ofText, hread]
  rfl

theorem load_pretty (c : Config) : load (.content c.toJson.pretty.toUTF8) = .ok c :=
  load_write Style.isBlank_indented c 0 Reading.blank_nil (by simp [pretty])

theorem load_text (c : Config) : load (.content c.toJson.text.toUTF8) = .ok c :=
  load_write Style.isBlank_compact c 0 Reading.blank_nil (by simp [Json.text])

theorem load_pretty_line (c : Config) : load (.content (c.toJson.pretty ++ "\n").toUTF8) = .ok c := by
  have hend : Reading.Blank ['\n'] := by simp [Reading.Blank, Reading.isSpace]
  exact load_write Style.isBlank_indented c 0 hend (by simp [pretty])

end Config

/-- The text of an envelope of success around the text of its data. -/
theorem Envelope.text_success (data : Json) :
    (success data).text = "\x7b\"ok\":true,\"data\":" ++ data.text ++ "\x7d" := by
  rw [← String.toList_inj]
  simp only [success, Json.text, write, writeMembers, write_compact (0 + 1) data]
  simp [Style.compact, Quoted.write, Quoted.escape]

open Http Viewer in
/-- The text that a viewer prints and the data that a bridge serves are the configuration that a bridge
loads, whatever is in it. -/
theorem Config.load_undoes_writing (c : Config) :
    (∀ (args : CommandLine.ViewerArgs) (clock : Clock) (net : Network) (r : Range),
      args.showConfig = true → range args clock = .ok r →
      ((remoteOf args clock).source net).config = .ok c →
      let printed := run args clock net
      printed.failure = none ∧ printed.output = c.toJson.pretty ++ "\n" ∧
        load (.content printed.output.toUTF8) = .ok c) ∧
    load (.content c.toJson.pretty.toUTF8) = .ok c ∧
    (∀ (b : Bridge) (request : Request), b.config = c → request.method = "GET" →
      request.target.path = "/config" →
      b.answer request = ⟨200, [Bridge.anyOrigin],
        some ("\x7b\"ok\":true,\"data\":" ++ c.toJson.text ++ "\x7d")⟩) ∧
    load (.content c.toJson.text.toUTF8) = .ok c := by
  refine ⟨fun args clock net r hargs hrange hsource => ?_, load_pretty c, ?_, load_text c⟩
  · have hrun : run args clock net = { lines := [c.toJson.pretty], calls := [.config] } := by
      rw [run_of_showConfig hargs hrange, showConfig, hsource]
    have houtput : (run args clock net).output = c.toJson.pretty ++ "\n" := by
      rw [hrun, Run.output, Report.unlines]
      simp
    refine ⟨congrArg Run.failure hrun, houtput, ?_⟩
    rw [houtput]
    exact load_pretty_line c
  · rintro b request rfl hmethod hpath
    have hroute : Bridge.Route.ofPath? request.target.path = some .config := hpath ▸ rfl
    rw [Bridge.answer_get_of_route hroute hmethod, ← Envelope.text_success]
    rfl

open Http Viewer in
/-- A configuration with marks that are escaped, empty texts and no location. -/
theorem Config.load_undoes_writing_odd :
    let c : Config := { blacklist := ["\"\\\n\x01😀", ""], matchers := [⟨"", "/"⟩], location := none }
    let b : Bridge := ⟨none, c⟩
    let args : CommandLine.ViewerArgs := ⟨"http://127.0.0.1:17700", some "2026-10-20", none, true⟩
    let printed := run args ⟨⟨0, 0, by decide, by decide⟩, .utc⟩ b.network
    printed.failure = none ∧ load (.content printed.output.toUTF8) = .ok c ∧
      (b.answer ⟨"GET", "/config", []⟩).body =
        some ("\x7b\"ok\":true,\"data\":" ++ c.toJson.text ++ "\x7d") ∧
      load (.content c.toJson.text.toUTF8) = .ok c := by
  intro c b args printed
  have hhost : Url.IsHost "127.0.0.1:17700" := ⟨by simp, by simp⟩
  have hrange : range args ⟨⟨0, 0, by decide, by decide⟩, .utc⟩ =
      .ok ⟨⟨1792454400, 0, by decide, by decide⟩, ⟨1792454400, 0, by decide, by decide⟩⟩ := by
    decide +kernel
  have hsource : ((remoteOf args ⟨⟨0, 0, by decide, by decide⟩, .utc⟩).source b.network).config =
      .ok c := Remote.config_eq (Remote.base_ofUrl hhost 0) hhost
  obtain ⟨hprinted, -, hserved, hdata⟩ := load_undoes_writing c
  obtain ⟨hfailure, -, hload⟩ := hprinted args _ b.network _ rfl hrange hsource
  have hanswer := hserved b ⟨"GET", "/config", []⟩ rfl rfl rfl
  exact ⟨hfailure, hload, congrArg Response.body hanswer, hdata⟩

end Daybook
