import Reparse.Unicode.NamedSet

/-!
# Scripts

A character belongs to one script, but may be used with further ones: a digit or an accent that
several scripts share has the script "common" or "inherited" and extends to each of those. `script?`
gives the characters of a script and `scriptExtension?` those used with it.
-/

namespace Reparse

/-- A script with the further characters it is used with. -/
structure Script where
  own : NamedSet
  shared : List String

/-- The scripts. Two of the names belong to no character. -/
def scripts : List Script :=
  [⟨⟨["adlm", "adlam"],
      ["hdeUcYEKEC"]⟩,
      ["ciHBbGBjwOBfhHB"]⟩,
    ⟨⟨["ahom"],
      ["ebrCbBCPEX"]⟩,
      []⟩,
    ⟨⟨["hluw", "anatolianhieroglyphs"],
      ["essEwL"]⟩,
      []⟩,
    ⟨⟨["arab", "arabic"],
      ["chCFBGBOBDBbGBKLbABeEBbIdCbWjGbFBCFcXBbDdntWeLQnZCdCCcCHBbGQeIFBfFfvNbFcPDcDEdglSEBbBBCB",
       "BCBBKBEBBBBGBEBBBBBBDBCBBCBBBBBBBBBBCBBCEBHBEBEBBBKBRFDBFBRcAC"]⟩,
      ["chOBOBDBbGBKLbABjuSBfhHBdakACcdKbC"]⟩,
    ⟨⟨["armn", "armenian"],
      ["bzDbMCbYCDdozJF"]⟩,
      ["bdWB"]⟩,
    ⟨⟨["avst", "avestan"],
      ["dxcYcCDH"]⟩,
      ["hBBrfSC"]⟩,
    ⟨⟨["bali", "balinese"],
      ["kfWcZBbY"]⟩,
      []⟩,
    ⟨⟨["bamu", "bamum"],
      ["clcQdKcvcQvX"]⟩,
      []⟩,
    ⟨⟨["bass", "bassavah"],
      ["fhkIbECG"]⟩,
      []⟩,
    ⟨⟨["batk", "batak"],
      ["knGcAIE"]⟩,
      []⟩,
    ⟨⟨["beng", "bengali"],
      ["dpOEBICCCWBHBBDECJCCCEIBECBFCZ"]⟩,
      ["baYBcmUCRChjEBBBCCBBIBIBCBEBCDcbaFB"]⟩,
    ⟨⟨["bhks", "bhaiksuki"],
      ["edoIJBbTBOKbD"]⟩,
      []⟩,
    ⟨⟨["bopo", "bopomofo"],
      ["bcSCrlXbReIbG"]⟩,
      ["bbJBBDNBrcPDEKBNKECBGBhNBcztHCkWF"]⟩,
    ⟨⟨["brah", "brahmi"],
      ["dzaEdAEbKJB"]⟩,
      []⟩,
    ⟨⟨["brai", "braille"],
      ["pdWjW"]⟩,
      []⟩,
    ⟨⟨["bugi", "buginese"],
      ["jwAbCCC"]⟩,
      ["cmhZB"]⟩,
    ⟨⟨["buhd", "buhid"],
      ["iuYU"]⟩,
      ["iuNC"]⟩,
    ⟨⟨["cans", "canadianaboriginal"],
      ["hoYyQvOcSdtpQQ"]⟩,
      []⟩,
    ⟨⟨["cari", "carian"],
      ["dtyMbX"]⟩,
      ["hBBlzMBCBfgDB"]⟩,
    ⟨⟨["aghb", "caucasianalbanian"],
      ["duxScALB"]⟩,
      ["bdSBbSBbSB"]⟩,
    ⟨⟨["cakm", "chakma"],
      ["dzkAcBBS"]⟩,
      ["dtMKckEK"]⟩,
    ⟨⟨["cham"],
      ["cmjWcDJOCKCE"]⟩,
      []⟩,
    ⟨⟨["cher", "cherokee"],
      ["hlGdICGcfjEdC"]⟩,
      ["bdODBBGCWCLC"]⟩,
    ⟨⟨["chrs", "chorasmian"],
      ["dyxCbC"]⟩,
      []⟩,
    ⟨⟨["zyyy", "common"],
      ["AcNbAGbAbVBPBFXBbFBrHbNFFCUeMBJBGBBByNBGBOBDBbGBgABtWBeZCbvTBpPElEBcgLDcTChVCBBbvHBNBHEB",
       "GBDCBbdTMCdJBLDLBPRbHcLbMBDCGBbBBRbPDEzQWLVbjSjWyECbGBeBtSdQpMVBBBZPIEEdNCDBdMCfRQbGbMJB",
       "bWcMbFdDbVBdKgMjtOcMbhsIbIdYDgJKjKBgEBpFBOCbezQCiAKWbJBTBEfRBBbGbAGbALKBbTCcMHBHKFjYDEbT",
       "DJdCNbZbTiUbBcshWEfvGjQGqUgAeMcIjMKbNCcKDRICHbEEcJiFUMUMdJJZfFdHBcTBCCBCCCEBMBBBHBcNBECI",
       "BHBbCBEBFBBDHBnCClGCbYhtHcQcYcJbbEbSEdWMPCPBPBbLKgScEbABCNbSEJHCOGfYblWERDNDePEdRGMEBPME",
       "cEIKGbOIbECMECcKnCMOCNDKFcEHPCLGJHfRBdYbsuxBBbEdS"]⟩,
      []⟩,
    ⟨⟨["copt", "coptic", "qaac"],
      ["bmGOpjKeMFH"]⟩,
      ["hBBwMBDCBBeECqdTBdcpCbC"]⟩,
    ⟨⟨["xsux", "cuneiform"],
      ["efbSbjMdYeHBFLhO"]⟩,
      []⟩,
    ⟨⟨["cprt", "cypriot"],
      ["dvzKGCBBbSBCDBCB"]⟩,
      ["dtiMDEbTDJ"]⟩,
    ⟨⟨["cpmn", "cyprominoan"],
      ["ekyYdV"]⟩,
      ["dtiMC"]⟩,
    ⟨⟨["cyrl", "cyrillic"],
      ["bnKfDCgNivOLgEBcYBgfNbGbtoAdSbheCCdhpGcKbHB"]⟩,
      ["baYBcPDBBBBBBCBFBoHCjqNBgeKB"]⟩,
    ⟨⟨["dsrt", "deseret"],
      ["dumAdC"]⟩,
      []⟩,
    ⟨⟨["deva", "devanagari"],
      ["dkQdDEPCbAcijGbGbreMK"]⟩,
      ["baYBcmUCRChjEbNBCbnABbzfRK"]⟩,
    ⟨⟨["diak", "divesakuru"],
      ["eckUHCBCIBCBbEBCCMJK"]⟩,
      []⟩,
    ⟨⟨["dogr", "dogra"],
      ["ecaYcI"]⟩,
      ["doMMcidCK"]⟩,
    ⟨⟨["dupl", "duployan"],
      ["gmdSeDFNDJHKCE"]⟩,
      ["hBBwTCBBYCqiHBfuwPE"]⟩,
    ⟨⟨["egyp", "egyptianhieroglyphs"],
      ["eldGbqSKfxR"]⟩,
      []⟩,
    ⟨⟨["elba", "elbasan"],
      ["duvWbO"]⟩,
      ["hBBwRB"]⟩,
    ⟨⟨["elym", "elymaic"],
      ["dyyYX"]⟩,
      []⟩,
    ⟨⟨["ethi", "ethiopic"],
      ["gvGcVBECHBBBECbPBECbHBECHBBBECPBcFBECcPCbGDbAjvAXJHBHBHBHBHBHBHBHbvkCGCGCGJHBHepyFHBEBCB",
       "P"]⟩,
      ["beCB"]⟩,
    ⟨⟨["gara", "garay"],
      ["dxzCbMDbDIC"]⟩,
      ["chOBOBDB"]⟩,
    ⟨⟨["geor", "georgian"],
      ["ghSbMBBFBCbRBEejWbRCDgeAbMBBFB"]⟩,
      ["hBBbvLBeiRBfvIBfgGB"]⟩,
    ⟨⟨["glag", "glagolitic"],
      ["qrGdSgizGHBRCHBCBF"]⟩,
      ["hBBwPBBBoSBCBjXBeiRBfvIBfgYBbtnFB"]⟩,
    ⟨⟨["goth", "gothic"],
      ["dueAbB"]⟩,
      ["hBBwQCCBbOB"]⟩,
    ⟨⟨["gran", "grantha"],
      ["eadSEBICCCWBHBCBFCJCCCDCBGBFHCHDF"]⟩,
      ["dnTCRCyQOgkABBCbEDDCbnABdntQBetWCBB"]⟩,
    ⟨⟨["grek", "greek"],
      ["bhWEBDCEBBEBBBBDBBBUBcLOQjnQFbYFEFdGBmIWCGCbMCGCIBBBBBBBbFCcBBPBOCGBTCDBJlJBcajEBbgnIdBR",
       "BdaxRcS"]⟩,
      ["hBBwMCCBBBBBKBbUBCBbUBjyXCzRB"]⟩,
    ⟨⟨["gujr", "gujarati"],
      ["dzLDBJBDBWBHBCBFCKBDBDCBPECMHH"]⟩,
      ["dnTCRCcidMK"]⟩,
    ⟨⟨["gong", "gunjalagondi"],
      ["eebWGBCBbLBCBGHK"]⟩,
      ["hBBdhKC"]⟩,
    ⟨⟨["guru", "gurmukhi"],
      ["duNDBGECCWBHBCBCBCCBBFECCDDBHEBBHR"]⟩,
      ["dnTCRCcidMK"]⟩,
    ⟨⟨["gukh", "gurungkhema"],
      ["fdrScG"]⟩,
      ["doNB"]⟩,
    ⟨⟨["hani", "han"],
      ["rpWbABdLMiGbVBBBZJOEblCjtOcMbfbKbhsIoCCeCbsiICMCccoKclfCbGgdUGiOCinQOlbLPxYdqWuWcfYhhZFg",
       "fG"]⟩,
      ["hBBrwYQBDCBBKBNKECBGBEEhFBfSQbGbMJBbWbOcEbXPMbZBdKZKFdSbFbroJIbhaZCkWFdchESlrYC"]⟩,
    ⟨⟨["hang", "hangul"],
      ["glKjWllECjXdQeJbFcNbFbtaNbDyTqnSMXEbXpaIbFDGCGCGCD"]⟩,
      ["seRDEKBNQBGBhNBcztHCkWF"]⟩,
    ⟨⟨["rohg", "hanifirohingya"],
      ["dxwQbOIK"]⟩,
      ["chOBOBDBbGBfRB"]⟩,
    ⟨⟨["hano", "hanunoo"],
      ["itSV"]⟩,
      ["iuNC"]⟩,
    ⟨⟨["hatr", "hatran"],
      ["dwiATBCFF"]⟩,
      []⟩,
    ⟨⟨["hebr", "hebrew"],
      ["ccVcDIbBEGdovWbABFBBBCBCBK"]⟩,
      ["bdVC"]⟩,
    ⟨⟨["hira", "hiragana"],
      ["shDdIGDfpeVlBSBbDDymVB"]⟩,
      ["seRDEKBNQGBBECdNEDBdMCcztGCkWFKBbTC"]⟩,
    ⟨⟨["armi", "imperialaramaic"],
      ["dwbWWBJ"]⟩,
      []⟩,
    ⟨⟨["zinh", "inherited", "qaai"],
      ["bdOeIkRCrKLbABbcIEgoXbFtTDBNBHEBGBDChQcMuEChMbHftXEeDCczuJQQOblNBiSBgfABctcUbUCXuYDRICHb",
       "EEbtlhIjG"]⟩,
      []⟩,
    ⟨⟨["phli", "inscriptionalpahlavi"],
      ["dxgQTFI"]⟩,
      []⟩,
    ⟨⟨["prti", "inscriptionalparthian"],
      ["dxfKWCI"]⟩,
      []⟩,
    ⟨⟨["java", "javanese"],
      ["cmeYdACKEC"]⟩,
      ["cmhZB"]⟩,
    ⟨⟨["kthi", "kaithi"],
      ["dzfCcPKB"]⟩,
      ["doOKnxXBbufEK"]⟩,
    ⟨⟨["knda", "kannada"],
      ["etCNBDBXBKBFCJBDBEHCGCBECKBD"]⟩,
      ["dnTCRChjEBBCGBXBBBcasXG"]⟩,
    ⟨⟨["kana", "katakana"],
      ["skVdMCDjGQiAbVBdKczhEKBbTcouCEBHBCBBlBDbYBOE"]⟩,
      ["bdTBbDBqzTDEKBNQGBBECdNEDBdMCcztGCkWFKBbTC"]⟩,
    ⟨⟨["kawi"],
      ["eerWRBbPDbD"]⟩,
      []⟩,
    ⟨⟨["kali", "kayahli"],
      ["cmaAbUBB"]⟩,
      ["cmbUB"]⟩,
    ⟨⟨["khar", "kharoshthi"],
      ["dwtCEBCFIBDBbDCDEKHJ"]⟩,
      []⟩,
    ⟨⟨["kits", "khitansmallscript"],
      ["fjiIBkgXsCbPB"]⟩,
      []⟩,
    ⟨⟨["khmr", "khmer"],
      ["ixKdQCKGKsSbG"]⟩,
      []⟩,
    ⟨⟨["khoj", "khojki"],
      ["dztWSBbV"]⟩,
      ["edIKchoIK"]⟩,
    ⟨⟨["sind", "khudawadi"],
      ["eaaQcHFK"]⟩,
      ["doMCcidMK"]⟩,
    ⟨⟨["krai", "kiratrai"],
      ["fiiIcG"]⟩,
      []⟩,
    ⟨⟨["laoo", "lao"],
      ["fmVCBBBFBYBBBXCFBBBHBKCE"]⟩,
      []⟩,
    ⟨⟨["latn", "latin"],
      ["cNbAGbAbVBPBFXBbFBrHbNFjxBbMGbXFEFNBcScNjWoFBNBQNfLCGBbBBRbPecTbGbulMdYDcPCCBBBIVObfKbRB",
       "JBEbedQHboKbAGbAdcFGBbQBJddnPbFGG"]⟩,
      ["hBBtWBKBBDBBJBBBbMPBCBBPDHCBCbMBFBENkRCbvECcxKBexWBvUBhKBezMBbtuMIvEB"]⟩,
    ⟨⟨["lepc", "lepcha"],
      ["kpScEDPDD"]⟩,
      []⟩,
    ⟨⟨["limb", "limbu"],
      ["jmEbFBMEMEBDM"]⟩,
      ["doNB"]⟩,
    ⟨⟨["lina", "lineara"],
      ["dvfSlZJWKI"]⟩,
      ["dtiTbT"]⟩,
    ⟨⟨["linb", "linearb"],
      ["dsyQMBbABTBCBPCObIeT"]⟩,
      ["dtiMDEbTDJ"]⟩,
    ⟨⟨["lisu"],
      ["ckkUbWbumAB"]⟩,
      ["baYBQBrdKC"]⟩,
    ⟨⟨["lyci", "lycian"],
      ["dtxGbD"]⟩,
      ["mgOB"]⟩,
    ⟨⟨["lydi", "lydian"],
      ["dwkMbAFB"]⟩,
      ["hBBrfTB"]⟩,
    ⟨⟨["mahj", "mahajani"],
      ["dznCbN"]⟩,
      ["hBBdhKMcidCK"]⟩,
    ⟨⟨["maka", "makasar"],
      ["eeqQZ"]⟩,
      []⟩,
    ⟨⟨["mlym", "malayalam"],
      ["eyANBDBbZBDBGEQCbA"]⟩,
      ["dnTCRChjOBXBcasZD"]⟩,
    ⟨⟨["mand", "mandaic"],
      ["ddGbCCB"]⟩,
      ["cjOB"]⟩,
    ⟨⟨["mani", "manichaean"],
      ["dxaMbNEM"]⟩,
      ["cjOB"]⟩,
    ⟨⟨["marc", "marchen"],
      ["edsQbGCWBO"]⟩,
      []⟩,
    ⟨⟨["gonm", "masaramgondi"],
      ["edyEHBCBbSDBBCBJIK"]⟩,
      ["doMC"]⟩,
    ⟨⟨["medf", "medefaidrin"],
      ["fisEdN"]⟩,
      []⟩,
    ⟨⟨["mtei", "meeteimayek"],
      ["cmsMXhTbUCK"]⟩,
      []⟩,
    ⟨⟨["mend", "mendekikakui"],
      ["hcuYhPCQ"]⟩,
      []⟩,
    ⟨⟨["merc", "meroiticcursive"],
      ["dwpKYEUCbU"]⟩,
      []⟩,
    ⟨⟨["mero", "meroitichieroglyphs"],
      ["dwoEbG"]⟩,
      ["mgRB"]⟩,
    ⟨⟨["plrd", "miao"],
      ["fizOcXEcFHR"]⟩,
      []⟩,
    ⟨⟨["modi"],
      ["ebhGcRLK"]⟩,
      ["clsAK"]⟩,
    ⟨⟨["mong", "mongolian"],
      ["jcICCBBUGdLHbRdscBN"]⟩,
      ["jcKCBBdcJBfzTCFE"]⟩,
    ⟨⟨["mroo", "mro"],
      ["fheUbFBKEC"]⟩,
      []⟩,
    ⟨⟨["mult", "multani"],
      ["dzyUHBBBEBPBL"]⟩,
      ["dyKK"]⟩,
    ⟨⟨["mymr", "myanmar"],
      ["gbOgEcgaYbFdTbGbpaMU"]⟩,
      ["cmbUB"]⟩,
    ⟨⟨["nbat", "nabataean"],
      ["dweIbFIJ"]⟩,
      []⟩,
    ⟨⟨["nagm", "nagmundari"],
      ["hbpObQ"]⟩,
      []⟩,
    ⟨⟨["nand", "nandinagari"],
      ["ecqYICbUCL"]⟩,
      ["dnTBSCbiMKgbHBIBHBcasRG"]⟩,
    ⟨⟨["talu", "newtailue"],
      ["jrCbSEbAGLDC"]⟩,
      []⟩,
    ⟨⟨["newa"],
      ["eanOdOBF"]⟩,
      ["dnTChkCBBCJBGBBBBB"]⟩,
    ⟨⟨["nkoo", "nko"],
      ["cyIcHCD"]⟩,
      ["chOBOBDBdppEC"]⟩,
    ⟨⟨["nshu", "nushu"],
      ["fjiFByvMpG"]⟩,
      []⟩,
    ⟨⟨["hmnp", "nyiakengpuachuehmong"],
      ["haeAbTDOCKEC"]⟩,
      []⟩,
    ⟨⟨["ogam", "ogham"],
      ["inObD"]⟩,
      []⟩,
    ⟨⟨["olck", "olchiki"],
      ["ksUbW"]⟩,
      []⟩,
    ⟨⟨["onao", "olonal"],
      ["hbzKbREB"]⟩,
      ["doMC"]⟩,
    ⟨⟨["hung", "oldhungarian"],
      ["dxrSbZNbZHG"]⟩,
      ["mgOBCBfgDBPB"]⟩,
    ⟨⟨["ital", "olditalic"],
      ["ducEbKJD"]⟩,
      []⟩,
    ⟨⟨["narb", "oldnortharabian"],
      ["dwyAbG"]⟩,
      []⟩,
    ⟨⟨["perm", "oldpermic"],
      ["dufGbR"]⟩,
      ["hBBwMBFDKBoDB"]⟩,
    ⟨⟨["xpeo", "oldpersian"],
      ["duiIbKEO"]⟩,
      []⟩,
    ⟨⟨["sogo", "oldsogdian"],
      ["dyqIbO"]⟩,
      []⟩,
    ⟨⟨["sarb", "oldsoutharabian"],
      ["dwwUbG"]⟩,
      []⟩,
    ⟨⟨["orkh", "oldturkic"],
      ["dxmUcV"]⟩,
      ["mgOBfgFB"]⟩,
    ⟨⟨["ougr", "olduyghur"],
      ["dyuQbA"]⟩,
      ["cjOBdusVB"]⟩,
    ⟨⟨["orya", "oriya"],
      ["eeJDBICCCWBHBCBFCJCCCDHDECBFCS"]⟩,
      ["dnTCRChjOBXB"]⟩,
    ⟨⟨["osge", "osage"],
      ["dusUbKEbK"]⟩,
      ["bdPBCBGBcYB"]⟩,
    ⟨⟨["osma", "osmanya"],
      ["duqYbECK"]⟩,
      []⟩,
    ⟨⟨["hmng", "pahawhhmong"],
      ["fhmEcSKKBHBVFT"]⟩,
      []⟩,
    ⟨⟨["palm", "palmyrene"],
      ["dwdCbG"]⟩,
      []⟩,
    ⟨⟨["pauc", "paucinhau"],
      ["edcAcF"]⟩,
      []⟩,
    ⟨⟨["phag", "phagspa"],
      ["clsQcE"]⟩,
      ["jcKCBBdcJBfzUB"]⟩,
    ⟨⟨["phnx", "phoenician"],
      ["dwjGbCDB"]⟩,
      []⟩,
    ⟨⟨["phlp", "psalterpahlavi"],
      ["dxhWSHEMH"]⟩,
      ["cjOB"]⟩,
    ⟨⟨["rjng", "rejang"],
      ["cmbWbKLB"]⟩,
      []⟩,
    ⟨⟨["runr", "runic"],
      ["ioUcXDL"]⟩,
      ["irRD"]⟩,
    ⟨⟨["samr", "samaritan"],
      ["daUbUCP"]⟩,
      ["rmVB"]⟩,
    ⟨⟨["saur", "saurashtra"],
      ["clvCcSIM"]⟩,
      []⟩,
    ⟨⟨["shrd", "sharada"],
      ["dzoYdS"]⟩,
      ["dnTBhkFBBBCCCBJBCBcatEGCB"]⟩,
    ⟨⟨["shaw", "shavian"],
      ["dupCbW"]⟩,
      ["hBB"]⟩,
    ⟨⟨["sidd", "siddham"],
      ["ebcIcCCbM"]⟩,
      []⟩,
    ⟨⟨["sgnw", "signwriting"],
      ["gwtKzCPFBP"]⟩,
      []⟩,
    ⟨⟨["sinh", "sinhala"],
      ["fcZDBSDYBJBBCHDBEGBBBIGKCDdulGU"]⟩,
      ["doMChkMB"]⟩,
    ⟨⟨["sogd", "sogdian"],
      ["dysEbQ"]⟩,
      ["cjOB"]⟩,
    ⟨⟨["sora", "sorasompeng"],
      ["dziEZHK"]⟩,
      []⟩,
    ⟨⟨["soyo", "soyombo"],
      ["ecxSdF"]⟩,
      []⟩,
    ⟨⟨["sund", "sundanese"],
      ["kkUcMjWI"]⟩,
      []⟩,
    ⟨⟨["sunu", "sunuwar"],
      ["edlWbIOK"]⟩,
      ["bdOCBBJBCBbCBDB"]⟩,
    ⟨⟨["sylo", "sylotinagri"],
      ["clqEbT"]⟩,
      ["doMCeYK"]⟩,
    ⟨⟨["syrc", "syriac"],
      ["cqYOBcICDkML"]⟩,
      ["bdRCCCBBYDHCBCbcCBOCCBbGBKLbABixRBBB"]⟩,
    ⟨⟨["tglg", "tagalog"],
      ["isMWJB"]⟩,
      ["iuNC"]⟩,
    ⟨⟨["tagb", "tagbanwa"],
      ["iwENBDBC"]⟩,
      ["iuNC"]⟩,
    ⟨⟨["tale", "taile"],
      ["jpGbECF"]⟩,
      ["bdOCFCDBezZK"]⟩,
    ⟨⟨["lana", "taitham"],
      ["jxGcLBbDCLGKGO"]⟩,
      []⟩,
    ⟨⟨["tavt", "taiviet"],
      ["cmoUcPYF"]⟩,
      []⟩,
    ⟨⟨["takr", "takri"],
      ["ebmEcGGK"]⟩,
      ["doMCcidMK"]⟩,
    ⟨⟨["taml", "tamil"],
      ["ejICBGDDBEDCBBBCDCDDDMEFDDBECBGBOVealHbYNB"]⟩,
      ["dnTCRChjOBcbbKBboeFBBBcDC"]⟩,
    ⟨⟨["tnsa", "tangsa"],
      ["fhgQdBBK"]⟩,
      []⟩,
    ⟨⟨["tang", "tangut"],
      ["fjiEBbFjcAIbdOtSJ"]⟩,
      ["seAQtBB"]⟩,
    ⟨⟨["telu", "telugu"],
      ["eoENBDBXBQCJBDBEHCBDCBCECKHJ"]⟩,
      ["dnTCRChjJCBBBBXB"]⟩,
    ⟨⟨["thaa", "thaana"],
      ["cvWbY"]⟩,
      ["chOBOCCBcMKdptGBKB"]⟩,
    ⟨⟨["thai"],
      ["fhXcGFbC"]⟩,
      ["baYBbABbRBbTB"]⟩,
    ⟨⟨["tibt", "tibetan"],
      ["frScUBbKEbNBbKBPBHEC"]⟩,
      ["seYE"]⟩,
    ⟨⟨["tfng", "tifinagh"],
      ["rcYcEHCOB"]⟩,
      ["bdQBBBBEZB"]⟩,
    ⟨⟨["tirh", "tirhuta"],
      ["easMcUIK"]⟩,
      ["dnTCRChjJBMBPBcasZK"]⟩,
    ⟨⟨["todr", "todhri"],
      ["dvdGcA"]⟩,
      ["bdPBCBCBJBBBcWB"]⟩,
    ⟨⟨["toto"],
      ["hatKbF"]⟩,
      ["baYB"]⟩,
    ⟨⟨["tutg", "tulutigalari"],
      ["eaiQKBBCBBbMBKBBCBBEBKBCIC"]⟩,
      ["exAKgbQBBBcasXGhFB"]⟩,
    ⟨⟨["ugar", "ugaritic"],
      ["duhCbEBB"]⟩,
      []⟩,
    ⟨⟨["zzzz", "unknown"],
      []⟩,
      []⟩,
    ⟨⟨["vaii", "vai"],
      ["ckmQlO"]⟩,
      []⟩,
    ⟨⟨["vith", "vithkuqi"],
      ["dvaELBPBHBCBLBPBHBC"]⟩,
      []⟩,
    ⟨⟨["wcho", "wancho"],
      ["havGcGFB"]⟩,
      []⟩,
    ⟨⟨["wara", "warangciti"],
      ["echCdFMB"]⟩,
      []⟩,
    ⟨⟨["yezi", "yezidi"],
      ["dylKbQBDCC"]⟩,
      ["chOBOBDBcMK"]⟩,
    ⟨⟨["yiii", "yi"],
      ["cipKbsVDcD"]⟩,
      ["seRCFKCIiPBdaeFF"]⟩,
    ⟨⟨["zanb", "zanabazarsquare"],
      ["ecuQcU"]⟩,
      []⟩,
    ⟨⟨["hrkt", "katakanaorhiragana"],
      []⟩,
      []⟩]

/-- The script that goes by a name. -/
def findScript? (name : String) : Option Script :=
  scripts.find? fun script => script.own.names.contains name

/-- The characters of a script. Nothing inside tells that the name belongs to no character. -/
def script? (name : String) : Option (Option CodeSet) :=
  (findScript? name).map fun script =>
    if script.own.steps.isEmpty then none else some script.own.codes

/-- The characters that extend to scripts beside their own. -/
def sharedCharacters : CodeSet :=
  CodeSet.unions (scripts.map fun script => CodeSet.ofSteps script.shared)

/-- The characters used with a script. What is common or inherited counts only where no script
shares it. -/
def scriptExtension? (name : String) : Option (Option CodeSet) :=
  (findScript? name).map fun script =>
    if script.own.steps.isEmpty then none
    else if script.own.names.any ["common", "inherited"].contains then
      some (script.own.codes.sdiff sharedCharacters)
    else some (script.own.codes.union (CodeSet.ofSteps script.shared))

end Reparse
