import Plusfish.Crawler.Scrape
import Plusfish.Parsers.HtmlScraper

open visitors

namespace plusfish

open GumboParser

/-- A scan in which the pages are parsed with these libraries. -/
def ScanEnv.withParser (env : ScanEnv) (parser : ParserEnv) : ScanEnv :=
  { env with
    scrapeHtml := parser.scrapeHtml env.request
    parseFingerprint := parser.parseFingerprint }

/-- The scraper and the two components that look for missing files make the same fingerprint of
    a page. A filter is shown the elements, the comments and the texts of a document, each once
    and in their order, whatever the other filters are. -/
theorem fingerprints_agree (env : ScanEnv) (parser : ParserEnv) :
    (∀ address request htmlContent,
      ((env.withParser parser).scrapeHtml address request htmlContent).map (·.fingerprint) =
        (env.withParser parser).parseFingerprint htmlContent) ∧
    ∀ (σ : Type) (filters : List (GumboFilter σ)) (root : GumboNode) (state : σ), filters ≠ [] →
      (filterDocument (GumboFilter.noting filters) root (state, [])).1 =
          filterDocument filters root state ∧
        ∀ i < filters.length,
          shownTo i (filterDocument (GumboFilter.noting filters) root (state, [])).2 =
            preorder root :=
  ⟨fun address request htmlContent =>
      ParserEnv.scrapeHtml_fingerprint address request htmlContent,
    fun _ _ root state hfilters => filterDocument_noting hfilters root state⟩

/-- A library that makes of every text the document `<p class=x>two words<!--no--></p>`. -/
def onePageParser : ParserEnv where
  gumboParse _ := some (.element
    { tag := .other
      originalTag := ⟨some (ascii "<p class=x>two words<!--no--></p>"), 11⟩
      attributes := [⟨ascii "class", ascii "x"⟩] }
    [.text ⟨ascii "two words", some (ascii "two words<!--no--></p>"), 9⟩,
      .comment { text := ascii "no" }])
  regexes :=
    { xssPayload := fun _ => none
      tagXssPayload := fun _ => none
      isRelativeUrl := fun _ => false
      isAbsoluteUrl := fun _ => false
      absoluteUrls := fun _ => [] }

/-- The tag, its attribute and the words are counted by their lengths; the comment is shown to
    the filter, but not counted. -/
theorem fingerprints_agree_onePage :
    let page := ascii "<p class=x>two words<!--no--></p>"
    let fingerprint : HtmlFingerprint := ⟨#v[0, 1, 0, 1, 0, 2, 0, 0, 0, 0, 0, 0, 0, 0, 0, 0]⟩
    (Crawler.loginEnv.withParser onePageParser).parseFingerprint page = some fingerprint ∧
      ((Crawler.loginEnv.withParser onePageParser).scrapeHtml 0 {} page).map (·.fingerprint) =
        some fingerprint ∧
      ∀ root, onePageParser.gumboParse page = some root → (preorder root).length = 3 ∧
        shownTo 0 (filterDocument (GumboFilter.noting [GumboFingerprintFilter.filter]) root
          ({}, [])).2 = preorder root := by
  obtain ⟨hagree, hshown⟩ := fingerprints_agree Crawler.loginEnv onePageParser
  have hparsed : (Crawler.loginEnv.withParser onePageParser).parseFingerprint
      (ascii "<p class=x>two words<!--no--></p>") =
        some ⟨#v[0, 1, 0, 1, 0, 2, 0, 0, 0, 0, 0, 0, 0, 0, 0, 0]⟩ := by decide +kernel
  refine ⟨hparsed, (hagree 0 {} _).trans hparsed, fun root hroot => ?_⟩
  cases hroot
  exact ⟨rfl, (hshown HtmlFingerprint [GumboFingerprintFilter.filter] _ {}
    (List.cons_ne_nil _ _)).2 0 Nat.one_pos⟩

end plusfish
