import Reparse.Unicode.NamedSet

/-!
# General categories

Every code point has one general category. `generalCategories` gives the members of each, and
`generalCategory?` also knows the groups of categories, the assigned code points, ASCII, and the set
of all.

Surrogates are code points but not characters, so their category has no members here.
-/

namespace Reparse

/-- The general categories with their members, the unassigned code points included. -/
def generalCategories : List NamedSet :=
  [⟨["lu", "uppercaseletter"],
      ["cNbAdXXBHbHBBBBBBBBBBBBBBBBBBBBBBBBBBBBBBBBBBBBBBBBBBBBBBBBBBBBBBBCBBBBBBBBBBBBBBBCBBBBB",
       "BBBBBBBBBBBBBBBBBBBBBBBBBBBBBBBBBBBBBBBBBCBBBBDCBBBCBDCEBCBDDCBCBBBBBCBBCBBCBDBBBCDBHBCB",
       "CBCBBBBBBBBBBBBBBBCBBBBBBBBBBBBBBBBBCBCBBDBBBBBBBBBBBBBBBBBBBBBBBBBBBBBBBBBBBBBBBBBBBBBB",
       "BBBBBBBBBBBBHCBCCBBEBBBBBBBBlDBBBDBIBGBBDBBBCBRBJbJBCDDBBBBBBBBBBBBBBBBBBBBBBBFBCBBCCbZb",
       "WBBBBBBBBBBBBBBBBBBBBBBBBBBBBBBBBBJBBBBBBBBBBBBBBBBBBBBBBBBBBBBBBBBBBBBBBBBBBBBBBBBBBBBB",
       "BCBBBBBBBBBBBBCBBBBBBBBBBBBBBBBBBBBBBBBBBBBBBBBBBBBBBBBBBBBBBBBBBBBBBBBBBBBBBBBBBBBBBBBB",
       "BBBBBBBBBBBBBBBBBBBBBBCbMehDbMBBFBbbUdIdgLBGbRCDmIBBBBBBBBBBBBBBBBBBBBBBBBBBBBBBBBBBBBBB",
       "BBBBBBBBBBBBBBBBBBBBBBBBBBBBBBBBBBBBBBBBBBBBBBBBBBBBBBBBBBBBBBBBBBBBBBBBBBBBBBBBBBBBBBBB",
       "BBBBBBBBBBBBBBBBBBBBBBBJBBBBBBBBBBBBBBBBBBBBBBBBBBBBBBBBBBBBBBBBBBBBBBBBBBBBBBBBBBBBBBBB",
       "BBBBBBBBBBBBBBBBBBBBBBBBBBBBBBBBBJIIGKIIIIGLBBBBBBBIIcUEMEMEMFLEkCBEBDDCDCBDFGBBBBBBECEK",
       "CFBcJBdzGbWbWBBDCBBBBBBEBBCBIDBBBBBBBBBBBBBBBBBBBBBBBBBBBBBBBBBBBBBBBBBBBBBBBBBBBBBBBBBB",
       "BBBBBBBBBBBBBBBBBBBBBBBBBBBBBBBBBBBBBBBBIBBBEBbtyJBBBBBBBBBBBBBBBBBBBBBBBBBBBBBBBBBBBBBB",
       "BBBBBBBTBBBBBBBBBBBBBBBBBBBBBBBBBBBfFBBBBBBBBBBBBBDBBBBBBBBBBBBBBBBBBBBBBBBBBBBBBBBBBBBB",
       "BBBBBBBBBBBBBBBBBBBBBBBBKBBBBCBBBBBBBBEBBBCBBBDBBBBBBBBBBBBBBBBBBBBFBFBBBBBBBBBBBBBBBEBB",
       "BCDBFBBBBBBBYBbhaHbAbuZbOfGbKgALBPBHBCcqCbZgBWegObGbgjWbGbmmQbAbAbAbAbAbABBCCBCCCEBIbAbA",
       "bACBECIBHbBCBEBFBBDHbBbAbAbAbAbAbAbAbAbAbAbAbEZbHZbHZbHZbHZbHBgnLbI"]⟩,
    ⟨["ll", "lowercaseletter"],
      ["dTbAcGBbPYBIBBBBBBBBBBBBBBBBBBBBBBBBBBBBBBBBBBBBBBBBBBBBBBBBBBBBBBBCBBBBBBBBBBBBBBBCBBBB",
       "BBBBBBBBBBBBBBBBBBBBBBBBBBBBBBBBBBBBBBBBBBCBBBBDCBBBCBDCEBCBDDCBCBBBBBCBBCBBCBDBBBCCCDGB",
       "CBCBBBBBBBBBBBBBBBBCBBBBBBBBBBBBBBBBBCCBBBDBBBBBBBBBBBBBBBBBBBBBBBBBBBBBBBBBBBBBBBBBBBBB",
       "BBBBBBBBBBBBBHCBCCBBEBBBBBBBBcRBbBhLBBBDBDDSBbBbJBCDDBBBBBBBBBBBBBBBBBBBBBBBFBBCBCCbZbWB",
       "BBBBBBBBBBBBBBBBBBBBBBBBBBBBBBBBBJBBBBBBBBBBBBBBBBBBBBBBBBBBBBBBBBBBBBBBBBBBBBBBBBBBBBBC",
       "BBBBBBBBBBBBCBBBBBBBBBBBBBBBBBBBBBBBBBBBBBBBBBBBBBBBBBBBBBBBBBBBBBBBBBBBBBBBBBBBBBBBBBBB",
       "BBBBBBBBBBBBBBBBBBBBBbWbPehBbRCDbdGGdfUJBBeNbScLNBbIdYBBBBBBBBBBBBBBBBBBBBBBBBBBBBBBBBBB",
       "BBBBBBBBBBBBBBBBBBBBBBBBBBBBBBBBBBBBBBBBBBBBBBBBBBBBBBBBBBBBBBBBBBBBBBBBBBBBBBBBBBBBBBBB",
       "BBBBBBBBBBBBBBBBBBBBBBBBBBJBBBBBBBBBBBBBBBBBBBBBBBBBBBBBBBBBBBBBBBBBBBBBBBBBBBBBBBBBBBBB",
       "BBBBBBBBBBBBBBBBBBBBBBBBBBBBBBBBBBBBJIGKIIIIGKIIIIOCIIIIIIFBCGBDDBCIECCIIKDBCkOBDCDBbBBE",
       "BEBCCIEEBcBBebBbWBBDCBBBBBBEBBCBGFBBBBBBBBBBBBBBBBBBBBBBBBBBBBBBBBBBBBBBBBBBBBBBBBBBBBBB",
       "BBBBBBBBBBBBBBBBBBBBBBBBBBBBBBBBBBBBBBBBBBBBCHBBBEBMbMBBFBbtwDBBBBBBBBBBBBBBBBBBBBBBBBBB",
       "BBBBBBBBBBBBBBBBBBBTBBBBBBBBBBBBBBBBBBBBBBBBBBBfFBBBBBBBBBBBBDBBBBBBBBBBBBBBBBBBBBBBBBBB",
       "BBBBBBBBBBBBBBBBBBBBBBBBBBBBBBBBBBBBBIBBBBCBBBBBBBBBEBBBCBBDBBBBBBBBBBBBBBBBBBBBFBFBBBBB",
       "BBBBBBBBBBEBBBCBDBBBBBBBBBBBbABDBbfPbRFJHdCbeaIHMFboZbAbvHbOfGbKfZLBPBHBCcrBbZeVWegObGbg",
       "jWbGbmmKbAbAHBSbAbAbAEBBBHBLbAbAbAbAbAbAbAbAbAbAbAbAbAbAbAbAbAbCbCZBGbAZBGbAZBGbAZBGbAZB",
       "GBBcsYKBUGGduDbI"]⟩,
    ⟨["lt", "titlecaseletter"],
      ["rLBCBCBbMBlfHIIIIIMBPBbVB"]⟩,
    ⟨["lm", "modifierletter"],
      ["baMSEMOFHBBBfDBFBsKBiWBgICkJCEBbFBJBDBgEBgLBbvOBeXBvTBcpMBeDBxNBrWGgScLNBbIbLbaNBNBQNemX",
       "CjHBhJBsBBbRFFBdTCdPDbqbUBbwCGkKBeKBbCCeRJdCBXBeBDDCsBBWBfHBeEBVCdZEJBbfvIBbTCczOGBbQBJc",
       "cXBbGBbjnSEtODbOCvENcMCBBygQEBHBCsgNcKhTHbkFBbrBB"]⟩,
    ⟨["lo", "otherletter"],
      ["gOBPBjWBEEiABbfVbBEEbTbGBKbJCBdVBBYCKDCBQBBbEbDdLLBYbHVWbQZHLFYBGRbPcHcCDBSBHKQPEICCCWBH",
       "BBDEDBQBNCBDOCKBIGECCWBHBCBCBCbFEBBTDQJBDBWBHBCBFDBSBPCXBLICCCWBHBCBFDBbECBDPBRBBGDDBEDC",
       "BBBCDCDDDMWBcAIBDBXBQDBbADCBCCbEBEIBDBXBKBFDBbFCBCPCRJBDBbPCBQBFDIDYGFSDYBJBBCHcGbWBCMGc",
       "HCBBBFBYBBBKBCJBCFXEbGBcLIBbKbBFeLbRUBQGEEDBDCHDENMBeJmRBECHBBBECbPBECbHBECHBBBECPBcFBEC",
       "cPbLQeJxWCRBbAFcXGIHSNTOSONBDPcAbOBcPbJBcBHFCbIBBFcSKbFbXbECFLbSEbAcCXJcBgUbVRIcCbENCKbS",
       "bAbKbPDKbEeJEBGBCDBbpQEenVcEYXJHBHBHBHBHBHBHBHvFBcBBEdIIBBdMEBFbRBdQRbGbWQtSjtOcMbfcFBbr",
       "ZcPbOIkIEQKCcOBbXcSgNBdZBDHBDBEBXbDcAObYcKGDBBCLbCKXZbDHbVbTFCJKFBbPXDBIUQBGDBDbYBBDCCFC",
       "BBBYCDLHBOGCGCGJHBHfPbJbDqnSMXEbXmnCoCCeCcPBBKBNBFBBBCBCBeEbHnZScMCcCbOMeMFBfFeBKBbTCbFD",
       "GCGCGCDbJMBbABTBCBPCObIeToZbDDbXbVbGNUBIGbMKbECbKEIeYdAdUbOIcAdOcAMlZJWKIfWGCBBbSBCDBCXK",
       "XJbFcNTBCKWKbAcScEGCcMBPEBDBbDbQbDDbDbJIBbCbBcCKWKTNSeGcVhBbKbMEBBlSbQGCQDcHbDKBIWbQSbUV",
       "bBXMcBcFCCBNbTbGZbAbKbDBCBIbJDBMbWOEVBBBbJSBZTCcLHBBBEBPBKHbVbMICCCWBHBCBFDBSBMFbEKBBCBB",
       "bMBBZBBBbScBSEUDbEbWUCBBhCbVbPEbKbWUBcHbRNBcTbBbLHhDbSiDICBCIBCBYPBBBdQICbNQBBBbCBKbOHBV",
       "BLbUTBScVhRbHbFJBbLRBbXbEeIHBCBbMVBZGBCBbGOBmPTPBBNBbIeUBdBbjMiWhOdxKdTPbpGRGZfxRFwLkdDb",
       "EcpUvXHbFRdBRbESbWbZVFTqTbOpPcXFBgTjcAIbvQbPKngHlFPBbDDCBOEIpGdkUeDFNDJHKnbCBtHbTbHBmJbE",
       "SbSsQbBiVbECBtBHBEBCBPBhPbzNEBbBBCBBCBBKBEBBBBGBEBBBBBBDBCBBCBBBBBBBBBBCBBCEBHBEBEBBBKBR",
       "FDBFBRgoAclfCbGgdUGiOCinQOlbLPxYdqWuWcfYhhZFgfG"]⟩,
    ⟨["mn", "nonspacingmark"],
      ["bdOeIkPFkFbTBBBCBCBBcULbWVQBdXHCGCCBEbJBbEbBdNLcGJJBYEBJBDBFbRDcHJbQYBbGcDBBBEIEBDHKCbDB",
       "cGBEEIBUCbABCCcFBECECCDDBbECDBLCcFBEFBCEBUCWGBBcGBCBBEIBHCLCbEBcJBMBbYBDBcDBBDFDBEHCLCbD",
       "BcGBCBGBFCUCbCCcFCEEIBUCbDBcUBHDBBdMBCHMIdUBCJLHcVCbBBBBBBcDOBFBCFLBbKJBdYEBGBCCCZCEDQEN",
       "BCCGBPBbbBDbkKDbDCbECbECcMCBHIBCLJBbTDBBeNCbIBeODECJBGDiLCCBcGBBHBBBBCIGKCBbWOBQbXEbWBBF",
       "BBFBbOJMCbGECCBDcEBBCDBBDcGICCfWDBNBHEBGBDChQcMbbSNEBDMeoCDfLBdSbGvIEeDCbsqEBEKbGCdCCkMB",
       "DBEBZCFBfVCbASNBbMIZLbUDbWBCECCbNBcPGCCCCMBIBbVBbZBBDCCFCBBbQCIBjEBCBEBbdzSBbcJQQQblLBiS",
       "BfTFcmGDBCFEbODEBgJCwBEcNFmFCdBEcSLbXEeTBcCPbPBCCKDbXECCHBcJDbKFBIcKBMCcAJKECBdRDCBBCGBC",
       "BgBBDIVCcFCDBbLHDFcSGNBBBBBOCdHICDBBXBdGGBBECBCjEEGCBCbBCdHICBBCeCBBBCGBBdXBBBCEBFjZJBCj",
       "WCBBEBfOECCEBbGKbOGCEIBJGCDbUNBCpQHBGBBdEWCHBCBCeSGDBBCBHBBcUCDBBBnJCLCcAFFBBBXBhxTBGPqy",
       "YMDDdsAFcHHboIBcLEdDBbdbKCgyZbUCXuYDRICHbEEfSDcyDcDEbYIBOBWFBPcaIHBRCHBCBFdWBgEHoLBcJEtO",
       "EjUCbcIHeFHbtciVjG"]⟩,
    ⟨["mc", "spacingmark"],
      ["dkTBcDBCDIEBCbYCcGDGCCCKBbRBcGDcOBcGDIBBCcBCcGBBBGCCCKBdYCBCDDBDKBbPDcJEcJCcGBBFCCBCJCbC",
       "BOCcGDFDBDKBbQCcXDGISCmSCcLBgPCEBGBCCZCKDCHVCCGCBKDclSBbEBeZBHIBCnIECDECBGiQCcGBBBJBBCIG",
       "fPBbWBFBBFBCcJBbEBECCBcIBCDBBDCbWIICgPBVBhhECbtlBCCBdKCbYQfMCbVBbWCECCDeGCCCYBbTBBBeFBCC",
       "FBjDCBCBCBBblxJBBBeXBbTDECeLBYCcHBbWDJCNBdPDDCBBgODbFCcGCBECCCDJBKCdGDHBCBBEBCBBdXDICDBe",
       "CDGBBECBjDDGECBeJDICBBeFBBCGBdZBBCEBkBDJBjNGBCEBCBBBfMDIEEBdGBbDCcKBpRBOBeCBHBCBiFFECBBn",
       "MCMBbWCICBByyYDfjGcDeACbkxNCGG"]⟩,
    ⟨["me", "enclosingmark"],
      ["bsQCikQBciGEBDbyoXD"]⟩,
    ⟨["nd", "decimalnumber", "digit"],
      ["bWKciOKfEKhQKpWKeOKeOKeOKeOKeOKeOKeOKeOKeOKdSKeOKcSKkSKcSKctQKbMKlOKeYKgKKGKhAKdIKfEKGKc",
       "aeOKbaCKbMKhQKWKdIKpQKbfmCKccKKdfYKGKbeQKeYKcIKfOKkSKnEKeOKoKKdYKGUcYKqGKdYKzMKdIKjMKcSK",
       "qGKyyGKdmCKdIKfEKuOKbkdYKecQbYdnCKqGKtIKjNKbgVKhbAK"]⟩,
    ⟨["nl", "letternumber"],
      ["irUDdyTbJCEfmSBZJODbsyLKbifGcBrSBIBfEFmeSeH"]⟩,
    ⟨["no", "othernumber"],
      ["gWCFBCDdmRGoMGeQDfDHiJHRJqRKbpLUbrVKsMBcmVBDGGKhQQbPBbbYcIdAWyGbEcbHBbtCEfIKbEIBPbGKbNPb",
       "smIGbhqNbTcNERCnDbBbKEbzGIZHbNJcXFWGgECCQCbUcMJcACbEDcXFeAIYIbPHmSGnObFgCKbQEeIHfEUoPUbz",
       "XCqOJbhNTbgTVbcpQHbeSXblyFUMUeEZibUJbjTcHBDBEcYbTBPblAN"]⟩,
    ⟨["pc", "connectorpunctuation"],
      ["dRBmbVCTBdgaOCYDjFB"]⟩,
    ⟨["pd", "dashpunctuation"],
      ["bTBcaUBbZBfkJBbnPBdbDGfhXBCBbFCEBbCBrEBTBeHBczwACbLBKBgNBflOBmGB"]⟩,
    ⟨["ps", "openpunctuation"],
      ["bOBbYBbFBfpEBBBcuOBdpMBDBbMBcDBPByKBBBbEBbpUBBBBBBBBBBBBBdCBbGBBBBBBBBBpOBBBBBBBBBBBBBBB",
       "BBBBBBcMBBBbHBboVBBBBBBBZBSBBBBBBBqMBBBBBBBBBDBBBBBBBCBczrTBiHBbDBBBBBBBBBBBBBBBDBRBBBBB",
       "gOBbYBbFBDBCB"]⟩,
    ⟨["pe", "closepunctuation"],
      ["bPBbZBbFBfpDBBBcuOBdrDBcDBPByKBBBbEBbpUBBBBBBBBBBBBBdCBbGBBBBBBBBBpOBBBBBBBBBBBBBBBBBBBB",
       "BcMBBBbHBboVBBBBBBBbSBBBBBBBqMBBBBBBBBBDBBBBBBBCCczrQBiJBbDBBBBBBBBBBBBBBBDBRBBBBBgOBbZB",
       "bFBCBCB"]⟩,
    ⟨["pi", "initialpunctuation"],
      ["gPBlxKBCCCBZBffSBBBEBCBPBDB"]⟩,
    ⟨["pf", "finalpunctuation"],
      ["hFBlwVBDBbCBffSBBBEBCBPBDB"]⟩,
    ⟨["po", "otherpunctuation"],
      ["bHDBDCBBBBCKCDCbBBcQBFBOCHBbbABIBrYGbPBcCBCBCBbSCUCBCNBBDcWEdYBbROiZDcCPbFBkBCKBfKBeQBeR",
       "BpABMBoDBdMBKCgMPBBeIBcWFECeHGgPBxOJbdTBeUDcTCgBDBDbLGBEmBCiICeYHBGgECKHbCDeUEcHFcKCcMIL",
       "BbgCCIIIJCECDDLBBBKeuCEBCeIBfNCEDCBCJBCBBCCKFBKCEBBBNCDqMDcFBhHBbryGCkJDdVBKBeLGoQEdICbO",
       "DBBbXCbVBdTNQCeUEeWCQCjPBbfcUHCBWBUCCEDDBEHDGBBCfTDBDCBBBBCKCDCbBBbKBCCpUDzSBbWBpYBbcPBh",
       "RBbFBkMJbMBeIHcOHdLEbkQFbSEhHHeFCBEeWEbWCdBEEBNBBDdKGeDBlMCBCeKFKCBBeABjQXeBDbCNcYBfADjS",
       "BkEDfZBdOIdFDBFdPKiHBdRFbQCyVCcWNgTBbrSFejCCwdVCfDBcNFIBvGDlJEmPBbdbOBliLFeiTBbhEC"]⟩,
    ⟨["sm", "mathsymbol"],
      ["bRBQDcJBBBbTBEBbLBbFBbdMBuHDjyHBNBbNDNDfJBbNFGBcQFFCEBCBCBHBbFCCBBBbFkIbGCdMBbEZbOGsBBJB",
       "cCIeHBmYFCbFKQjWfBWcLEbGCjYbWVCGdasQBbfSBBDgIBQDcJBBBfBBGEfeFCcyeZBZBbFBZBbFBZBbFBZBbFBZ",
       "BiuEC"]⟩,
    ⟨["sc", "currencysymbol"],
      ["bKBeVEbwJBeTBtECtECHBjLBkDBwJBdqPBdiIbHbzhVBbgmLBeEBfYBiLCDCmcSEcvxEBdrKB"]⟩,
    ⟨["sk", "modifiersymbol"],
      ["dQBBBcTBGBEBDBuBEMOFHBBBReNBOCbxIBiuMBBDLDNDNDNCghOCbsvRXJCdZCblOBOCbekKRbiHBBBgGBdolJF"]⟩,
    ⟨["so", "othersymbol"],
      ["gKBCBEBBBblPBkGCeXChYBKBTCjNBtVBoJBfAGBBfCBhZBbPBpBDPBBDCGUBBBBBfDIBGBCFEhPCbcYKbbVBbbUB",
       "gBbInPKJJccHCBEBCKBBCGGBBBBBBEBLCOBBCBBcGCJFCEBCBCBHBbFCCBBBbFkIIEUCHCdDBbEZbOGcUWLdDdAW",
       "hBBJBcCIeHBjObSbScMjWtSbWVCGbNCbGBeBiVGnTCbUbABdLMiGbAQEBNCMBVCGCmYCEKbGbMJBQbFLbEIBPbGK",
       "bNPmIjtOcMbguIcDbhHEKCBBwBDbfjAQeXBbTDsQBDBECNCmBJcFRCDBNDBbVbTclUCwTBesSBdgNIERbcnIEFBb",
       "euWBfvNjGQqUgAeMcIjMKbNCcIFDWCHbEEcJVcODBhEdJbtXtScDEbYIBOBCcoUBehWBeZBbbTbSEdWMPCPBPBbL",
       "XgFcEbDNbSEJHCOGfYjRFbcAERDNDePEdRGMEBPMEcEIKGbOIbECMECcKnCMOCNDKFcEHPCLGJHfRBdO"]⟩,
    ⟨["zs", "spaceseparator"],
      ["bGBeXBihJBdpNLbKBbVBfxWB"]⟩,
    ⟨["zl", "lineseparator"],
      ["meQB"]⟩,
    ⟨["zp", "paragraphseparator"],
      ["meRB"]⟩,
    ⟨["cc", "control", "cntrl"],
      ["AbGdRbH"]⟩,
    ⟨["cf", "format"],
      ["gRBcaKGWBhKBbXBoUCdCBftJBdaQFbAFbXFBKdghJBjPDgiZBPBnkKQbzqUEhwXIbtkzMBbEdS"]⟩,
    ⟨["co", "privateuse"],
      ["dgvOjmEcahxOdsyOCdsyO"]⟩,
    ⟨["cn", "unassigned"],
      ["biECGEHBBBUBpHBbMCbYCDBcDIbBEGLkKBcICdXOcHCbXCPBbCCBBLFbFBCFjDBICCCWBHBBDECJCCCEIBECBFCZ",
       "CDBGECCWBHBCBCBCCBBFECCDDBHEBBHRKDBJBDBWBHBCBFCKBDBDCBPECMHHBDBICCCWBHBCBFCJCCCDHDECBFCS",
       "KCBGDDBEDCBBBCDCDDDMEFDDBECBGBOVFNBDBXBQCJBDBEHCBDCBCECKHWBDBXBKBFCJBDBEHCGCBECKBDMNBDBb",
       "ZBDBGEQCbABDBSDYBJBBCHDBEGBBBIGKCDMcGEbDbLCBBBFBYBBBXCFBBBHBKCEbGcUBbKEbNBbKBPBNbLhQBBFB",
       "CoNBECHBBBECbPBECbHBECHBBBECPBcFBECcPCbGDbAGdICGCzTDdLHWJYJUMNBDBCMdQCKGKGbAGdLHbRFcSKbF",
       "BMEMEBDbQCFLbSEbAGLDcKCcNBbDCLGKGOCbFbXcZBgKIcIDPDcKFbRCLIbRFuOCGCbMCGCIBBBBBBBbFCcBBPBO",
       "CGBTCDBJBdXBMCbBBNDbHPbHPfKEzQWLVcrSCbGBnLFbTBBFBCcEHCOYJHBHBHBHBHBHBHBHBeWbIbABdLMiGbAd",
       "CBdICdZFbRBdQBdIJbWBbriRDcDJnKUhCIhYCCBBBIVcHDKGcEIcSIMGeMLbEDdABLEbHBcDJOCKCdZYbCKGCGCG",
       "JHBHBcIEeWCKGqnSMXEbXEnbACeCbMHMFFbABFBBBCBCBeVQrDCcCHBbGbQGbZBTBEEFBfFCBBhIDGCGCGCDDHBH",
       "KFCMBbABTBCBPCObIeTFDEbTDdKBNDBbVbUfAbDDbXPbCEbKJbEFbRFbEBbLEObQgCCKGbKEbKEbOIcALMBPBHBC",
       "BLBPBHBCDcAMlZJWKIYGBbQBJcRGCBBbSBCDBCXBcUIJbWTBCFbHDbBFBcMcEEUCbYBCFIBDBbDCDEKHJHcMbGbN",
       "EMJcCDbDCbBFbAHEMHdCcVcDbZNbZHbUIKGbMDbDICiAbFBbQBDCCQDcDbSIbQWbAbMbCUXJdAEbKJcQKBCZHKGc",
       "BBSIbNJdSBULSBbVcKHBBBEBPBLGcHFKGEBICCCWBHBCBFBKCCCDCBGBFHCHDFLKBBCBBbMBKBBCBBEBKBCICbDd",
       "OBFbEcUIKgKcCCbMbIcRLKGNTcGGKGUbCbBCPEXhDcIdWdFMICBCIBCBbEBCCMJKcSICbUCLbBcUIdFNcVHKhAbI",
       "OKGJBbTBOKbDDbGCWBOcVHBCBbSDBBCBJIKGGBCBbLBCBGHKlYZHRBbPDbDdHBPbYNbjNdYeHBFLhOdxKdVNbqSK",
       "fxRFwLkdDcGcoSvXHbFBKEdDBKGbECGKcSKKBHBVFTqQcGhQdNdXcXEcFHRcMFLCOjcAIbvQbPKnfREBHBCBlFPB",
       "bDDCBOEIpGdkUeDFNDJHKCIfvGjQGqUcYbUCXJeMcIjMKbNChMVcSeSUMUMdJJZfFdHBcTBCCBCCCEBMBBBHBcNB",
       "ECIBHBbCBEBFBBDHBnCClGCbbAPFBPbqMbFGGiFHBRCHBCBFFcKbHBeIbTDOCKECmIbFRcGFBrWbQiGbREBsMHBE",
       "BCBPBhPCQbPcYEKECbeFcQcYcJhMEBbBBCBBCBBKBEBBBBGBEBBBBBBDBCBBCBBBBBBBBBBCBBCEBHBEBEBBBKBR",
       "FDBFBRcACkKbSEdWMPCPBPBbLKgScEbDNbSEJHCOGfYblWERDNDePEdRGMEBPMEcEIKGbOIbECMECcKnCMOCNDKF",
       "cEHPCLGJHfRBdYbnQclfCbGgdUGiOCinQOlbLPxYdqWuWcfYhhZFgfGbomxLBbEdSeYjGdsfOdsyOCdsyO"]⟩,
    ⟨["cs", "surrogate"],
      []⟩]

/-- The groups of general categories, by the short names of their members. -/
def categoryGroups : List (List String × List String) :=
  [(["l", "letter"], ["lu", "ll", "lt", "lm", "lo"]),
    (["lc", "casedletter"], ["lu", "ll", "lt"]),
    (["m", "mark", "combiningmark"], ["mn", "mc", "me"]),
    (["n", "number"], ["nd", "nl", "no"]),
    (["p", "punctuation", "punct"], ["pc", "pd", "ps", "pe", "pi", "pf", "po"]),
    (["s", "symbol"], ["sm", "sc", "sk", "so"]),
    (["z", "separator"], ["zs", "zl", "zp"]),
    (["c", "other"], ["cc", "cf", "co", "cn"])]

/-- The members of the categories with some short names. -/
def categoryUnion (names : List String) : CodeSet :=
  CodeSet.unions ((names.filterMap (NamedSet.find? generalCategories)).map NamedSet.codes)

/-- The set that a name means as a general category. A category without characters is known by name
only. -/
def generalCategory? (name : String) : Option (Option CodeSet) :=
  if name == "any" then some (some ⟨[0]⟩)
  else if name == "ascii" then some (some (CodeSet.range 0 0x7F))
  else if name == "assigned" then some (some (categoryUnion ["cn"]).complement)
  else
    match categoryGroups.find? fun group => group.1.contains name with
    | some group => some (some (categoryUnion group.2))
    | none =>
      (NamedSet.find? generalCategories name).map fun category =>
        if category.steps.isEmpty then none else some category.codes

end Reparse
